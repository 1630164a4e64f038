import Urc.Library.Run
import Mathlib.Logic.Function.Basic

/-! # The keyboard repeat guard

While the X11 backend shares a display, a helper process keeps the key repeat of its keyboards
off. It takes note of each keyboard's setting when it starts, and the X server puts the noted
settings back when the helper's connection closes. `stop` closes the helper's stdin and waits at
most five seconds, so the next helper can start before the last one is gone.
-/

namespace Urc

abbrev DeviceId := UInt16

/-- The keyboards that the guard looks after: the core keyboard and the slave keyboards attached
to it. `XIQueryDevice` lists every device once. -/
structure KeyboardSet where
  coreId : DeviceId
  ids : List DeviceId
  core_mem : coreId ∈ ids

abbrev RepeatBits := DeviceId → Bool

/-- `SetControls` for one device; for the core keyboard it changes the attached ones, too. -/
def setRepeat (d : KeyboardSet) (bits : RepeatBits) (k : DeviceId) (enabled : Bool) : RepeatBits :=
  if k = d.coreId then fun j => if j ∈ d.ids then enabled else bits j
  else Function.update bits k enabled

/-- The X server applies the auto-reset controls of a client that is gone. -/
def autoReset (bits : RepeatBits) (originals : List (DeviceId × Bool)) : RepeatBits :=
  originals.foldl (fun b o => Function.update b o.1 o.2) bits

/-- The order of the restoration: the core keyboard first. -/
def coreFirst (d : KeyboardSet) (originals : List (DeviceId × Bool)) : List (DeviceId × Bool) :=
  originals.filter (·.1 = d.coreId) ++ originals.filter (·.1 ≠ d.coreId)

/-- Where a helper stands: before it has noted the keyboards in `todo`, with repeat suppressed and
waiting for the end of its stdin, while it restores the keyboards in `todo`, or at its exit. -/
inductive HelperPc
  | snapshotting (todo : List DeviceId)
  | active
  | restoring (todo : List (DeviceId × Bool))
  | exited
  deriving DecidableEq

structure Helper where
  pc : HelperPc
  originals : List (DeviceId × Bool)
  deriving DecidableEq

abbrev HelperId := ℕ

/-- Where `vnc_supervisor_loop` stands with an X11 backend: between two backends, in `start` before
the guard, waiting for its "ready", in `start` behind it, polling the health, in `stop`, waiting
for the exit of the guard, or behind its end. -/
inductive CyclePc
  | pausing
  | starting
  | awaitingReady
  | startingVnc
  | up
  | stopping
  | awaitingExit
  | returned
  deriving DecidableEq

/-- `guard` is the helper of the present backend, `stdinOpen` the pipes that the agent holds. -/
structure KeyRepeat where
  keyboards : KeyboardSet
  serverKeyRepeat : Bool
  bits : RepeatBits
  helpers : HelperId → Option Helper
  stdinOpen : HelperId → Bool
  pc : CyclePc
  guard : Option HelperId

/-- `spawnGuard` carries a fresh process, or none when the spawn fails. -/
inductive CycleEvent
  | start
  | startFails
  | spawnGuard (h : Option HelperId)
  | ready
  | notReady
  | vncUp
  | unhealthy
  | stopVnc
  | exitSeen
  | exitTimeout
  | shutdown
  | helperStep (h : HelperId)
  | helperSignal (h : HelperId)
  | helperDies (h : HelperId)
  deriving DecidableEq

namespace KeyRepeat

def new (keyboards : KeyboardSet) (serverKeyRepeat : Bool) (bits : RepeatBits) : KeyRepeat :=
  ⟨keyboards, serverKeyRepeat, bits, fun _ => none, fun _ => true, .pausing, none⟩

def setHelper (s : KeyRepeat) (h : HelperId) (x : Helper) : KeyRepeat :=
  { s with helpers := Function.update s.helpers h (some x) }

def helperExits (s : KeyRepeat) (h : HelperId) (x : Helper) : KeyRepeat :=
  { s.setHelper h { x with pc := .exited } with bits := autoReset s.bits x.originals }

def helperStep (s : KeyRepeat) (h : HelperId) (x : Helper) : KeyRepeat :=
  match x.pc with
  | .snapshotting (k :: todo) =>
    s.setHelper h { x with
      pc := .snapshotting todo, originals := x.originals ++ [(k, s.bits k)] }
  | .snapshotting [] =>
    { s.setHelper h { x with pc := .active } with
      bits := setRepeat s.keyboards s.bits s.keyboards.coreId false }
  | .active =>
    -- the end of stdin is seen here only
    if s.stdinOpen h then s
    else s.setHelper h { x with pc := .restoring (coreFirst s.keyboards x.originals) }
  | .restoring ((k, enabled) :: todo) =>
    { s.setHelper h { x with pc := .restoring todo } with
      bits := setRepeat s.keyboards s.bits k enabled }
  | .restoring [] => s.helperExits h x
  | .exited => s

/-- SIGTERM or SIGINT: handled once repeat is suppressed, deadly before. -/
def helperSignal (s : KeyRepeat) (h : HelperId) (x : Helper) : KeyRepeat :=
  match x.pc with
  | .snapshotting _ => s.helperExits h x
  | .active => s.setHelper h { x with pc := .restoring (coreFirst s.keyboards x.originals) }
  | _ => s

def closeStdin (s : KeyRepeat) : KeyRepeat :=
  match s.guard with
  | some h => { s with stdinOpen := Function.update s.stdinOpen h false }
  | none => s

def helperExited (s : KeyRepeat) (h : HelperId) : Bool :=
  match s.helpers h with
  | some x => x.pc = .exited
  | none => true

def guardReady (s : KeyRepeat) : Bool :=
  match s.guard.bind s.helpers with
  | some x => match x.pc with
    | .snapshotting _ => false
    | _ => true
  | none => false

def step (s : KeyRepeat) : CycleEvent → KeyRepeat
  | .start => if s.pc = .pausing then { s with pc := .starting } else s
  -- after any failure of `start` the loop calls `stop`
  | .startFails => if s.pc = .starting ∨ s.pc = .startingVnc then { s with pc := .stopping } else s
  | .spawnGuard h =>
    if s.pc = .starting then
      if s.serverKeyRepeat then { s with pc := .startingVnc }
      else
        match h with
        | some h =>
          -- a process that never was
          if s.helpers h = none then
            { s.setHelper h ⟨.snapshotting s.keyboards.ids, []⟩ with
              pc := .awaitingReady, guard := some h }
          else s
        | none => { s with pc := .stopping }
    else s
  | .ready => if s.pc = .awaitingReady ∧ s.guardReady then { s with pc := .startingVnc } else s
  | .notReady => if s.pc = .awaitingReady then { s with pc := .stopping } else s
  | .vncUp => if s.pc = .startingVnc then { s with pc := .up } else s
  | .unhealthy => if s.pc = .up then { s with pc := .stopping } else s
  | .stopVnc =>
    if s.pc = .stopping then
      match s.guard with
      | some _ => { s.closeStdin with pc := .awaitingExit }
      | none => { s with pc := .pausing }
    else s
  | .exitSeen =>
    if s.pc = .awaitingExit ∧ s.guard.all s.helperExited then
      { s with pc := .pausing, guard := none }
    else s
  | .exitTimeout =>
    if s.pc = .awaitingExit then { s with pc := .pausing, guard := none } else s
  -- the loop is cancelled or returns: what it holds is dropped
  | .shutdown => { s.closeStdin with pc := .returned }
  | .helperStep h =>
    match s.helpers h with
    | some x => s.helperStep h x
    | none => s
  | .helperSignal h =>
    match s.helpers h with
    | some x => s.helperSignal h x
    | none => s
  | .helperDies h =>
    match s.helpers h with
    | some x => if x.pc = .exited then s else s.helperExits h x
    | none => s

variable {s s' : KeyRepeat} {e : CycleEvent} {h h' : HelperId} {x : Helper} {bits₀ : RepeatBits}

def Running (s : KeyRepeat) (h : HelperId) : Prop := ∃ x, s.helpers h = some x ∧ x.pc ≠ .exited

/-- At most one helper runs, and with none running the keyboards are set as they were. -/
def Restored (bits₀ : RepeatBits) (s : KeyRepeat) : Prop :=
  (∀ h h', s.Running h → s.Running h' → h = h') ∧ ((∀ h, ¬ s.Running h) → s.bits = bits₀)

/-- The wait in `stop` does not run out on a helper that still runs. -/
def InTime (s : KeyRepeat) : CycleEvent → Prop
  | .exitTimeout => s.pc = .awaitingExit → ∀ h, s.guard = some h → ¬ s.Running h
  | _ => True

/-! ### What a helper knows -/

theorem autoReset_apply {originals : List (DeviceId × Bool)} {bits : RepeatBits}
    (hval : ∀ o ∈ originals, o.2 = bits₀ o.1) (j : DeviceId) :
    autoReset bits originals j = if j ∈ originals.map (·.1) then bits₀ j else bits j := by
  induction originals generalizing bits with
  | nil => simp [autoReset]
  | cons o originals ih =>
    have ho : o.2 = bits₀ o.1 := hval o List.mem_cons_self
    have htail : autoReset (Function.update bits o.1 o.2) originals j =
        if j ∈ originals.map (·.1) then bits₀ j else Function.update bits o.1 o.2 j :=
      ih fun o' ho' => hval o' (List.mem_cons_of_mem _ ho')
    unfold autoReset at htail ⊢
    rw [List.foldl_cons, htail]
    by_cases hj : j = o.1
    · subst hj
      simp [ho]
    · simp [hj]

/-- The notes that a helper has still to take, or has taken, and what it still has to write. -/
def Covered (d : KeyboardSet) (bits₀ bits : RepeatBits) (x : Helper) : Prop :=
  match x.pc with
  | .snapshotting todo => bits = bits₀ ∧ (∀ k ∈ todo, k ∈ d.ids) ∧
      ∀ k ∈ d.ids, k ∈ todo ∨ k ∈ x.originals.map (·.1)
  | .active => ∀ k ∈ d.ids, k ∈ x.originals.map (·.1)
  | .restoring todo => (∀ k ∈ d.ids, k ∈ x.originals.map (·.1)) ∧ ∀ o ∈ todo, o.1 ∈ d.ids
  | .exited => True

structure Noted (d : KeyboardSet) (bits₀ bits : RepeatBits) (x : Helper) : Prop where
  values : ∀ o ∈ x.originals, o.2 = bits₀ o.1
  keyed : ∀ o ∈ x.originals, o.1 ∈ d.ids
  outside : ∀ j, j ∉ d.ids → bits j = bits₀ j
  covered : Covered d bits₀ bits x

/-- The X server finds every setting in the notes of a helper that changed it. -/
theorem Noted.autoReset {d : KeyboardSet} {bits : RepeatBits} (hn : Noted d bits₀ bits x)
    (hx : x.pc ≠ .exited) : Urc.autoReset bits x.originals = bits₀ := by
  funext j
  rw [autoReset_apply hn.values]
  split_ifs with hj
  · rfl
  · have hcov := hn.covered
    unfold Covered at hcov
    split at hcov
    · rw [hcov.1]
    · exact hn.outside j fun hd => hj (hcov j hd)
    · exact hn.outside j fun hd => hj (hcov.1 j hd)
    · exact absurd ‹_› hx

theorem setRepeat_outside {d : KeyboardSet} {bits : RepeatBits} {k j : DeviceId} {b : Bool}
    (hk : k ∈ d.ids) (hj : j ∉ d.ids) : setRepeat d bits k b j = bits j := by
  unfold setRepeat
  split_ifs with hc
  · exact if_neg hj
  · refine Function.update_of_ne ?_ _ _
    rintro rfl
    exact hj hk

theorem mem_coreFirst {d : KeyboardSet} {originals : List (DeviceId × Bool)} {o : DeviceId × Bool} :
    o ∈ coreFirst d originals ↔ o ∈ originals := by
  simp only [coreFirst, List.mem_append, List.mem_filter, decide_eq_true_eq]
  tauto

theorem Noted.note {d : KeyboardSet} {bits : RepeatBits} {k : DeviceId} {todo : List DeviceId}
    (hn : Noted d bits₀ bits x) (hpc : x.pc = .snapshotting (k :: todo)) :
    Noted d bits₀ bits { x with
      pc := .snapshotting todo, originals := x.originals ++ [(k, bits k)] } := by
  have hcov := hn.covered
  simp only [Covered, hpc] at hcov
  obtain ⟨hbits, htodo, hall⟩ := hcov
  refine ⟨?_, ?_, hn.outside, hbits, fun j hj => htodo j (List.mem_cons_of_mem _ hj), ?_⟩
  · intro o ho
    rcases List.mem_append.mp ho with ho | ho
    · exact hn.values o ho
    · obtain rfl := List.mem_singleton.mp ho
      exact congrFun hbits k
  · intro o ho
    rcases List.mem_append.mp ho with ho | ho
    · exact hn.keyed o ho
    · obtain rfl := List.mem_singleton.mp ho
      exact htodo k List.mem_cons_self
  · intro j hj
    rw [List.map_append, List.mem_append]
    rcases hall j hj with hm | hm
    · rcases List.mem_cons.mp hm with rfl | hm
      · exact .inr (.inr (List.mem_singleton_self _))
      · exact .inl hm
    · exact .inr (.inl hm)

theorem Noted.suppress {d : KeyboardSet} {bits : RepeatBits} (hn : Noted d bits₀ bits x)
    (hpc : x.pc = .snapshotting []) :
    Noted d bits₀ (setRepeat d bits d.coreId false) { x with pc := .active } := by
  have hcov := hn.covered
  simp only [Covered, hpc] at hcov
  refine ⟨hn.values, hn.keyed, fun j hj => ?_, fun k hk => ?_⟩
  · exact (setRepeat_outside d.core_mem hj).trans (hn.outside j hj)
  · exact (hcov.2.2 k hk).resolve_left List.not_mem_nil

theorem Noted.writeBack {d : KeyboardSet} {bits : RepeatBits} {k : DeviceId} {enabled : Bool}
    {todo : List (DeviceId × Bool)} (hn : Noted d bits₀ bits x)
    (hpc : x.pc = .restoring ((k, enabled) :: todo)) :
    Noted d bits₀ (setRepeat d bits k enabled) { x with pc := .restoring todo } := by
  have hcov := hn.covered
  simp only [Covered, hpc] at hcov
  have hk : k ∈ d.ids := hcov.2 (k, enabled) List.mem_cons_self
  refine ⟨hn.values, hn.keyed, fun j hj => ?_, hcov.1, fun o ho => ?_⟩
  · exact (setRepeat_outside hk hj).trans (hn.outside j hj)
  · exact hcov.2 o (List.mem_cons_of_mem _ ho)

/-! ### The helpers of successive backends -/

/-- Only the guard of the present backend can still run, and it knows the settings from before the
first start. -/
structure Guarded (bits₀ : RepeatBits) (s : KeyRepeat) : Prop where
  owned : ∀ h, s.Running h → s.guard = some h
  place : s.pc = .pausing ∨ s.pc = .starting → s.guard = none
  noted : ∀ h x, s.helpers h = some x → x.pc ≠ .exited → Noted s.keyboards bits₀ s.bits x
  rest : (∀ h, ¬ s.Running h) → s.bits = bits₀

theorem Guarded.restored (hs : s.Guarded bits₀) : s.Restored bits₀ :=
  ⟨fun h h' hr hr' => Option.some.inj ((hs.owned h hr).symm.trans (hs.owned h' hr')), hs.rest⟩

theorem guarded_new (d : KeyboardSet) (skr : Bool) : (new d skr bits₀).Guarded bits₀ where
  owned _ hr := by
    obtain ⟨_, hx, _⟩ := hr
    cases hx
  place _ := rfl
  noted _ _ hx := by cases hx
  rest _ := rfl

theorem running_congr (hh : s'.helpers = s.helpers) : s'.Running h ↔ s.Running h := by
  rw [Running, Running, hh]

theorem Guarded.frame (hs : s.Guarded bits₀) (hh : s'.helpers = s.helpers)
    (hd : s'.keyboards = s.keyboards) (hb : s'.bits = s.bits)
    (hg : s'.guard = s.guard ∨ s'.guard = none ∧ ∀ h, ¬ s.Running h)
    (hp : s'.pc = .pausing ∨ s'.pc = .starting → s'.guard = none) : s'.Guarded bits₀ where
  owned h hr := by
    rw [running_congr hh] at hr
    rcases hg with hg | ⟨_, hno⟩
    · rw [hg, hs.owned h hr]
    · exact absurd hr (hno h)
  place := hp
  noted h x hx hpc := by
    rw [hd, hb]
    exact hs.noted h x (hh ▸ hx) hpc
  rest hno := by
    rw [hb]
    exact hs.rest fun h hr => hno h ((running_congr hh).mpr hr)

theorem Guarded.move {x' : Helper} (hs : s.Guarded bits₀) (hg : s.guard = some h)
    (hh : s'.helpers = Function.update s.helpers h (some x')) (hd : s'.keyboards = s.keyboards)
    (hg' : s'.guard = s.guard) (hp : s'.pc = s.pc)
    (hx' : x'.pc ≠ .exited → Noted s.keyboards bits₀ s'.bits x')
    (hb : x'.pc = .exited → s'.bits = bits₀) : s'.Guarded bits₀ := by
  have hother : ∀ {j y}, s.helpers j = some y → y.pc ≠ .exited → j = h := fun hy hpc =>
    Option.some.inj ((hs.owned _ ⟨_, hy, hpc⟩).symm.trans hg)
  have hself : s'.helpers h = some x' := by rw [hh, Function.update_self]
  have hback : ∀ {j y}, s'.helpers j = some y → y.pc ≠ .exited → j = h ∧ y = x' := by
    intro j y hy hpc
    by_cases hj : j = h
    · subst hj
      rw [hself] at hy
      cases hy
      exact ⟨rfl, rfl⟩
    · rw [hh, Function.update_of_ne hj] at hy
      exact absurd (hother hy hpc) hj
  constructor
  · rintro j ⟨y, hy, hpc⟩
    rw [hg', hg, (hback hy hpc).1]
  · rw [hp, hg']
    exact hs.place
  · intro j y hy hpc
    obtain ⟨-, rfl⟩ := hback hy hpc
    rw [hd]
    exact hx' hpc
  · intro hno
    by_cases hpc : x'.pc = .exited
    · exact hb hpc
    · exact absurd ⟨x', hself, hpc⟩ (hno h)

theorem Guarded.exit (hs : s.Guarded bits₀) (hh : s.helpers h = some x) (hx : x.pc ≠ .exited) :
    (s.helperExits h x).Guarded bits₀ :=
  hs.move (hs.owned h ⟨x, hh, hx⟩) rfl rfl rfl rfl (fun hne => absurd rfl hne)
    fun _ => (hs.noted h x hh hx).autoReset hx

/-- SIGTERM and the end of stdin send a helper that is ready into its restoration. -/
theorem Guarded.leave (hs : s.Guarded bits₀) (hh : s.helpers h = some x) (hx : x.pc = .active) :
    (s.setHelper h { x with pc := .restoring (coreFirst s.keyboards x.originals) }).Guarded
      bits₀ := by
  have hne : x.pc ≠ .exited := by simp [hx]
  have hn := hs.noted h x hh hne
  have hcov := hn.covered
  simp only [Covered, hx] at hcov
  refine hs.move (hs.owned h ⟨x, hh, hne⟩) rfl rfl rfl rfl (fun _ => ?_) (fun he => by cases he)
  exact ⟨hn.values, hn.keyed, hn.outside, hcov, fun o ho => hn.keyed o (mem_coreFirst.mp ho)⟩

theorem Guarded.helperStep (hs : s.Guarded bits₀) (hh : s.helpers h = some x) :
    (s.helperStep h x).Guarded bits₀ := by
  by_cases hx : x.pc = .exited
  · simpa only [KeyRepeat.helperStep, hx] using hs
  have hn := hs.noted h x hh hx
  have hg := hs.owned h ⟨x, hh, hx⟩
  unfold KeyRepeat.helperStep
  cases hpc : x.pc with
  | snapshotting todo =>
    cases todo with
    | nil =>
      exact hs.move hg rfl rfl rfl rfl (fun _ => hn.suppress hpc) (fun he => by cases he)
    | cons k todo =>
      exact hs.move hg rfl rfl rfl rfl (fun _ => hn.note hpc) (fun he => by cases he)
  | active =>
    dsimp only
    split_ifs
    · exact hs
    · exact hs.leave hh hpc
  | restoring todo =>
    cases todo with
    | nil => exact hs.exit hh hx
    | cons o todo =>
      exact hs.move hg rfl rfl rfl rfl (fun _ => hn.writeBack hpc) (fun he => by cases he)
  | exited => exact absurd hpc hx

theorem Guarded.helperSignal (hs : s.Guarded bits₀) (hh : s.helpers h = some x) :
    (s.helperSignal h x).Guarded bits₀ := by
  unfold KeyRepeat.helperSignal
  cases hpc : x.pc with
  | snapshotting todo => exact hs.exit hh (by simp [hpc])
  | active => exact hs.leave hh hpc
  | restoring todo => exact hs
  | exited => exact hs

theorem Guarded.spawn (hs : s.Guarded bits₀) (hpc : s.pc = .starting)
    (hh : s'.helpers = Function.update s.helpers h (some ⟨.snapshotting s.keyboards.ids, []⟩))
    (hd : s'.keyboards = s.keyboards) (hb : s'.bits = s.bits) (hg : s'.guard = some h)
    (hp : s'.pc = .awaitingReady) : s'.Guarded bits₀ := by
  have hno : ∀ j, ¬ s.Running j := fun j hr => by
    have hj := hs.owned j hr
    rw [hs.place (.inr hpc)] at hj
    cases hj
  have hbits : s.bits = bits₀ := hs.rest hno
  have hback : ∀ {j y}, s'.helpers j = some y → y.pc ≠ .exited →
      j = h ∧ y = ⟨.snapshotting s.keyboards.ids, []⟩ := by
    intro j y hy hne
    by_cases hj : j = h
    · subst hj
      rw [hh, Function.update_self] at hy
      cases hy
      exact ⟨rfl, rfl⟩
    · rw [hh, Function.update_of_ne hj] at hy
      exact absurd ⟨y, hy, hne⟩ (hno j)
  constructor
  · rintro j ⟨y, hy, hne⟩
    rw [hg, (hback hy hne).1]
  · rw [hp]
    rintro (hc | hc) <;> cases hc
  · intro j y hy hne
    obtain ⟨-, rfl⟩ := hback hy hne
    rw [hd, hb]
    exact ⟨by simp, by simp, fun j _ => congrFun hbits j, hbits, fun _ hk => hk,
      fun _ hk => .inl hk⟩
  · intro _
    rw [hb, hbits]

theorem Guarded.goto (hs : s.Guarded bits₀) {pc : CyclePc}
    (hp : pc = .pausing ∨ pc = .starting → s.guard = none) :
    ({ s with pc := pc } : KeyRepeat).Guarded bits₀ :=
  hs.frame rfl rfl rfl (.inl rfl) hp

/-- `stop` is over: the guard is dropped, whether or not it was seen to exit. -/
theorem Guarded.release (hs : s.Guarded bits₀) (hno : ∀ h, s.guard = some h → ¬ s.Running h) :
    ({ s with pc := .pausing, guard := none } : KeyRepeat).Guarded bits₀ :=
  hs.frame rfl rfl rfl (.inr ⟨rfl, fun h hr => hno h (hs.owned h hr) hr⟩) fun _ => rfl

theorem closeStdin_eq (s : KeyRepeat) : ∃ f, s.closeStdin = { s with stdinOpen := f } := by
  unfold closeStdin
  split
  · exact ⟨_, rfl⟩
  · exact ⟨_, rfl⟩

theorem Guarded.closeStdin (hs : s.Guarded bits₀) {pc : CyclePc}
    (hp : pc ≠ .pausing ∧ pc ≠ .starting) :
    ({ s.closeStdin with pc := pc } : KeyRepeat).Guarded bits₀ := by
  obtain ⟨f, hf⟩ := s.closeStdin_eq
  rw [hf]
  refine hs.frame rfl rfl rfl (.inl rfl) ?_
  rintro (hc | hc)
  · exact absurd hc hp.1
  · exact absurd hc hp.2

theorem not_running_of_exited (hx : s.helperExited h = true) : ¬ s.Running h := by
  rintro ⟨x, hh, hpc⟩
  simp only [helperExited, hh, decide_eq_true_eq] at hx
  exact hpc hx

theorem Guarded.spawnGuard (hs : s.Guarded bits₀) (h : Option HelperId) :
    (s.step (.spawnGuard h)).Guarded bits₀ := by
  unfold KeyRepeat.step
  dsimp only
  split_ifs with hpc
  · exact hs.goto (by simp)
  · cases h with
    | none => exact hs.goto (by simp)
    | some h =>
      dsimp only
      split_ifs
      · exact hs.spawn hpc rfl rfl rfl rfl rfl
      · exact hs
  · exact hs

theorem Guarded.stopVnc (hs : s.Guarded bits₀) : (s.step .stopVnc).Guarded bits₀ := by
  unfold KeyRepeat.step
  dsimp only
  split_ifs
  · split
    · exact hs.closeStdin (by simp)
    · rename_i hg
      exact hs.goto fun _ => hg
  · exact hs

theorem Guarded.exitSeen (hs : s.Guarded bits₀) : (s.step .exitSeen).Guarded bits₀ := by
  unfold KeyRepeat.step
  dsimp only
  split_ifs with hc
  · refine hs.release fun h hg => not_running_of_exited ?_
    simpa [hg] using hc.2
  · exact hs

theorem Guarded.step (hs : s.Guarded bits₀) (hgood : s.InTime e) : (s.step e).Guarded bits₀ := by
  cases e with
  | start =>
    unfold KeyRepeat.step
    dsimp only
    split_ifs with hpc
    · exact hs.goto fun _ => hs.place (.inl hpc)
    · exact hs
  | startFails | ready | notReady | vncUp | unhealthy =>
    unfold KeyRepeat.step
    dsimp only
    split_ifs
    · exact hs.goto (by simp)
    · exact hs
  | spawnGuard h => exact hs.spawnGuard h
  | stopVnc => exact hs.stopVnc
  | exitSeen => exact hs.exitSeen
  | exitTimeout =>
    unfold KeyRepeat.step
    dsimp only
    split_ifs with hc
    · exact hs.release (hgood hc)
    · exact hs
  | shutdown => exact hs.closeStdin (by simp)
  | helperStep h =>
    unfold KeyRepeat.step
    dsimp only
    split
    · rename_i x hh
      exact hs.helperStep hh
    · exact hs
  | helperSignal h =>
    unfold KeyRepeat.step
    dsimp only
    split
    · rename_i x hh
      exact hs.helperSignal hh
    · exact hs
  | helperDies h =>
    unfold KeyRepeat.step
    dsimp only
    split
    · rename_i x hh
      split_ifs with hx
      · exact hs
      · exact hs.exit hh hx
    · exact hs

/-- While no bounded wait runs out on a live helper, helpers never overlap, and without one the
key repeat of every keyboard is what it was before the first start. -/
theorem repeat_restored (d : KeyboardSet) (serverKeyRepeat : Bool) (bits : RepeatBits)
    (es : List CycleEvent)
    (h : Transition.Steps KeyRepeat.step InTime (new d serverKeyRepeat bits) es) :
    Transition.Always KeyRepeat.step (Restored bits) (new d serverKeyRepeat bits) es := by
  have hguarded : Transition.Always KeyRepeat.step (Guarded bits) (new d serverKeyRepeat bits) es :=
    h.always (fun _ _ hs hgood => hs.step hgood) (guarded_new d serverKeyRepeat)
  exact hguarded.mono fun _ hs => hs.restored

def oneKeyboard : KeyboardSet := ⟨3, [3], List.mem_singleton_self 3⟩

/-- A backend that comes up and fails its health check, with helper `h` as its guard. -/
def backendUp (h : HelperId) : List CycleEvent :=
  [.start, .spawnGuard (some h), .helperStep h, .helperStep h, .ready, .vncUp, .unhealthy, .stopVnc]

/-- After the end of its stdin, a helper restores one keyboard and exits. -/
def helperLeaves (h : HelperId) : List CycleEvent :=
  [.helperStep h, .helperStep h, .helperStep h]

theorem repeat_restored_oneKeyboard :
    Transition.Steps KeyRepeat.step InTime (new oneKeyboard false fun _ => true)
      (backendUp 0 ++ helperLeaves 0 ++ [.exitSeen]) ∧
    Transition.Always KeyRepeat.step (Restored fun _ => true)
      (new oneKeyboard false fun _ => true) (backendUp 0 ++ helperLeaves 0 ++ [.exitSeen]) := by
  have h : Transition.Steps KeyRepeat.step InTime (new oneKeyboard false fun _ => true)
      (backendUp 0 ++ helperLeaves 0 ++ [.exitSeen]) := by
    simp [backendUp, helperLeaves, InTime]
  exact ⟨h, repeat_restored _ _ _ _ h⟩

/-- The first helper outlives the wait, and the second takes the suppressed setting for the
original one: key repeat stays off for good. -/
theorem repeat_lost : ¬ ∀ (d : KeyboardSet) (serverKeyRepeat : Bool) (bits : RepeatBits)
    (es : List CycleEvent),
    Transition.Always KeyRepeat.step (Restored bits) (new d serverKeyRepeat bits) es := by
  intro h
  have hrun := (h oneKeyboard false (fun _ => true) (backendUp 0 ++ [.exitTimeout] ++ backendUp 1 ++
    helperLeaves 0 ++ helperLeaves 1) _ List.prefix_rfl).2
  have hno : ∀ j, ¬ (Transition.run KeyRepeat.step (new oneKeyboard false fun _ => true)
      (backendUp 0 ++ [.exitTimeout] ++ backendUp 1 ++ helperLeaves 0 ++
        helperLeaves 1)).Running j := by
    rintro (_ | _ | j) ⟨x, hx, hpc⟩
    · cases hx
      exact hpc rfl
    · cases hx
      exact hpc rfl
    · cases hx
  have hbit := congrFun (hrun hno) 3
  revert hbit
  decide +kernel

end KeyRepeat

end Urc
