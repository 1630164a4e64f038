import Urc.Agent.Coordinator

/-! # The table of tunnel tasks

Between its spawn and the insertion of its handle a task is in no table. If it ends there, its
handle is inserted after all, and stays; if its session already has a task, that one loses its
handle. The table is exact along a run just when every insertion finds its task running and
alone in its session.
-/

namespace Urc

def LoopPc.pending : LoopPc → Option TaskId
  | .inserting t => some t
  | _ => none

theorem LoopPc.pending_eq_some {pc : LoopPc} {t : TaskId} :
    pc.pending = some t ↔ pc = .inserting t := by
  cases pc <;> simp [pending]

namespace CoordinatorClient

variable {s s' : CoordinatorClient} {e : LoopEvent} {t t' : TaskId} {i j : Uuid}

/-- The task runs, and its session is `i`. -/
def Runs (s : CoordinatorClient) (t : TaskId) (i : Uuid) : Prop :=
  ∃ port, s.tasks t = some ⟨i, port, true⟩

/-- The task was spawned for the session `i`. -/
def IsFor (s : CoordinatorClient) (t : TaskId) (i : Uuid) : Prop :=
  ∃ port running, s.tasks t = some ⟨i, port, running⟩

def Idle (s : CoordinatorClient) : Prop := s.pc.pending = none

instance (s : CoordinatorClient) : Decidable s.Idle :=
  inferInstanceAs (Decidable (s.pc.pending = none))

def ExactAt (s : CoordinatorClient) (i : Uuid) : Prop :=
  ∀ t, s.activeTunnels.lookup i = some t ↔ s.Runs t i

/-- Outside dispatch steps, the table has the handle of every running task and no other, so
`abort_all_tunnels` leaves none running. -/
def TableExact (s : CoordinatorClient) : Prop :=
  s.Idle → (∀ i, s.ExactAt i) ∧ ∀ t i, ¬ s.abortAllTunnels.Runs t i

/-- A handle is inserted for a running task that is alone in its session, and the loop is not
aborted while it has a handle to insert, unless no task of the session runs. -/
def Orderly (s : CoordinatorClient) : LoopEvent → Prop
  | .locked => ∀ t i, s.pc = .inserting t → s.IsFor t i → ∀ t', s.Runs t' i ↔ t' = t
  | .abort => ∀ t i, s.pc = .inserting t → s.IsFor t i → ∀ t', ¬ s.Runs t' i
  | _ => True

/-! ### What a step can do to the table -/

inductive TableMove (s : CoordinatorClient) : LoopEvent → CoordinatorClient → Prop
  | stutter {e : LoopEvent} : TableMove s e s
  | idle {e : LoopEvent} {s' : CoordinatorClient} (hpc : s.Idle) (hpc' : s'.Idle)
      (htable : s'.activeTunnels = s.activeTunnels) (htasks : s'.tasks = s.tasks) :
      TableMove s e s'
  | spawn {e : LoopEvent} {t : TaskId} {i : Uuid} {port : UInt16} (hpc : s.pc = .reading)
      (ht : s.tasks t = none) : TableMove s e { s with
        pc := .inserting t, tasks := Function.update s.tasks t (some ⟨i, port, true⟩) }
  | insert {t : TaskId} {i : Uuid} {port : UInt16} {running : Bool} (hpc : s.pc = .inserting t)
      (ht : s.tasks t = some ⟨i, port, running⟩) :
      TableMove s .locked { s with pc := .reading, activeTunnels := s.activeTunnels.insert i t }
  | finish {t : TaskId} {i : Uuid} {port : UInt16} (ht : s.tasks t = some ⟨i, port, true⟩) :
      TableMove s (.tunnelEnd t) { s with
        activeTunnels := s.activeTunnels.erase i
        tasks := Function.update s.tasks t (some ⟨i, port, false⟩) }
  | drain : TableMove s .abortAllTunnels s.abortAllTunnels
  | abort {t : TaskId} (hpc : s.pc = .inserting t) : TableMove s .abort { s with pc := .aborted }

theorem idle_of_eq {pc : LoopPc} (h : s.pc = pc) (hpc : pc.pending = none) : s.Idle := by
  rw [Idle, h, hpc]

theorem disconnect_move (h : s.Idle) : TableMove s e s.disconnect := .idle h rfl rfl rfl

theorem connectOnce_move {ok : Bool} {ip : Option String} (h : s.pc = .connecting) :
    TableMove s e (s.connectOnce ok ip) := by
  have hs : s.Idle := idle_of_eq h rfl
  unfold connectOnce
  by_cases hurl : trim s.config.coordinatorUrl = ""
  · rw [if_pos hurl]
    exact .idle hs rfl rfl rfl
  · rw [if_neg hurl]
    cases ok with
    | true => exact .idle hs rfl rfl rfl
    | false => exact disconnect_move hs

theorem onFrame_move {m : Message} (h : s.pc = .reading) : TableMove s e (s.onFrame m t) := by
  cases m with
  | text x =>
    simp only [onFrame]
    split
    · split_ifs with ht
      · exact .spawn h ht
      · exact .stutter
    · exact .stutter
  | binary _ => exact disconnect_move (idle_of_eq h rfl)
  | ping _ => exact disconnect_move (idle_of_eq h rfl)
  | pong _ => exact disconnect_move (idle_of_eq h rfl)
  | close => exact disconnect_move (idle_of_eq h rfl)

theorem tunnelEnd_move (s : CoordinatorClient) (t : TaskId) :
    TableMove s (.tunnelEnd t) (s.tunnelEnd t) := by
  unfold tunnelEnd
  split
  · rename_i k hk
    obtain ⟨i, port, running⟩ := k
    split_ifs with hr
    · obtain rfl : running = true := hr
      exact .finish hk
    · exact .stutter
  · exact .stutter

theorem step_tableMove (s : CoordinatorClient) (e : LoopEvent) : TableMove s e (s.step e) := by
  cases e with
  | connect ok ip =>
    unfold step
    dsimp only
    split_ifs with h
    · exact connectOnce_move h
    · exact .stutter
  | heartbeat ok =>
    unfold step
    dsimp only
    split_ifs with h hok
    · exact .idle (idle_of_eq h rfl) (idle_of_eq h rfl) rfl rfl
    · exact disconnect_move (idle_of_eq h rfl)
    · exact .stutter
  | frame m task =>
    unfold step
    dsimp only
    split_ifs with h
    · exact onFrame_move h
    · exact .stutter
  | recvEnd =>
    unfold step
    dsimp only
    split_ifs with h
    · exact disconnect_move (idle_of_eq h rfl)
    · exact .stutter
  | locked =>
    unfold step
    dsimp only
    split
    · rename_i task hpc
      split
      · rename_i k hk
        obtain ⟨i, port, running⟩ := k
        exact .insert hpc hk
      · exact .stutter
    · exact .stutter
  | tunnelEnd task => exact tunnelEnd_move s task
  | abortAllTunnels => exact .drain
  | abort =>
    cases h : s.pc.pending with
    | none => exact .idle h rfl rfl rfl
    | some t => exact .abort (LoopPc.pending_eq_some.mp h)
  | wake =>
    unfold step
    dsimp only
    split_ifs with h
    · exact .idle (idle_of_eq h rfl) rfl rfl rfl
    · exact .stutter

/-! ### Running tasks after a step -/

theorem Runs.isFor (h : s.Runs t i) : s.IsFor t i := by
  obtain ⟨port, h⟩ := h
  exact ⟨port, true, h⟩

theorem IsFor.session_eq (h : s.IsFor t i) (h' : s.IsFor t j) : i = j := by
  obtain ⟨_, _, h⟩ := h
  obtain ⟨_, _, h'⟩ := h'
  rw [h] at h'
  cases h'
  rfl

theorem runs_congr (h : s'.tasks = s.tasks) : s'.Runs t i ↔ s.Runs t i := by
  rw [Runs, Runs, h]

theorem runs_spawn {port : UInt16} (ht : s.tasks t = none)
    (hs : s'.tasks = Function.update s.tasks t (some ⟨i, port, true⟩)) :
    s'.Runs t' j ↔ t' = t ∧ j = i ∨ s.Runs t' j := by
  by_cases h : t' = t
  · subst h
    simp [Runs, hs, ht, eq_comm]
  · simp [Runs, hs, h]

theorem runs_finish {port : UInt16}
    (hs : s'.tasks = Function.update s.tasks t (some ⟨i, port, false⟩)) :
    s'.Runs t' j ↔ t' ≠ t ∧ s.Runs t' j := by
  by_cases h : t' = t
  · subst h
    simp [Runs, hs]
  · simp [Runs, hs, h]

theorem isFor_finish {port : UInt16} {running : Bool} (ht : s.tasks t = some ⟨i, port, running⟩)
    (hs : s'.tasks = Function.update s.tasks t (some ⟨i, port, false⟩)) :
    s'.IsFor t' j ↔ s.IsFor t' j := by
  by_cases h : t' = t
  · subst h
    simp [IsFor, hs, ht]
  · simp [IsFor, hs, h]

theorem mem_handles :
    t ∈ s.activeTunnels.entries.map (·.2) ↔ ∃ i, s.activeTunnels.lookup i = some t := by
  simp only [List.mem_map]
  constructor
  · rintro ⟨⟨i, t⟩, he, rfl⟩
    exact ⟨i, AList.mem_lookup_iff.mpr he⟩
  · rintro ⟨i, hi⟩
    exact ⟨⟨i, t⟩, AList.mem_lookup_iff.mp hi, rfl⟩

/-- What `abort_all_tunnels` leaves running: the tasks without a handle in the table. -/
theorem runs_abortAllTunnels : s.abortAllTunnels.Runs t i ↔
    s.Runs t i ∧ ∀ j, s.activeTunnels.lookup j ≠ some t := by
  by_cases h : t ∈ s.activeTunnels.entries.map (·.2)
  · have hno : ¬ s.abortAllTunnels.Runs t i := by
      rintro ⟨port, hp⟩
      simp only [abortAllTunnels, if_pos h] at hp
      cases hk : s.tasks t with
      | none => simp [hk] at hp
      | some k => simp [hk] at hp
    obtain ⟨j, hj⟩ := mem_handles.mp h
    exact ⟨fun hr => absurd hr hno, fun hr => absurd hj (hr.2 j)⟩
  · have hsame : s.abortAllTunnels.tasks t = s.tasks t := if_neg h
    have hfree : ∀ j, s.activeTunnels.lookup j ≠ some t := fun j hj => h (mem_handles.mpr ⟨j, hj⟩)
    rw [Runs, Runs, hsame]
    exact ⟨fun hr => ⟨hr, hfree⟩, fun hr => hr.1⟩

theorem isFor_abortAllTunnels : s.abortAllTunnels.IsFor t i ↔ s.IsFor t i := by
  simp only [IsFor, abortAllTunnels]
  split_ifs
  · cases s.tasks t with
    | none => simp
    | some k => cases k; simp
  · rfl

theorem not_runs_abortAllTunnels (h : ∀ i, s.ExactAt i) : ¬ s.abortAllTunnels.Runs t i := by
  rw [runs_abortAllTunnels]
  rintro ⟨hr, hfree⟩
  exact hfree i ((h i t).mpr hr)

/-! ### The table in the middle of a dispatch step -/

/-- The table is exact but for the session of the task whose handle is to be inserted. Under
that session it has at most the handle of another running task, and none once the task ended. -/
structure Consistent (s : CoordinatorClient) : Prop where
  exact : ∀ i, (∀ t, s.pc = .inserting t → ¬ s.IsFor t i) → s.ExactAt i
  spawned : ∀ t, s.pc = .inserting t → ∃ i, s.IsFor t i
  sound : ∀ t i, s.pc = .inserting t → s.IsFor t i → ∀ t', s.activeTunnels.lookup i = some t' →
    t' ≠ t ∧ s.Runs t' i
  gone : ∀ t i, s.pc = .inserting t → s.IsFor t i → ¬ s.Runs t i → s.activeTunnels.lookup i = none

theorem not_pending (h : s.Idle) : s.pc ≠ .inserting t := by
  intro hp
  rw [Idle, hp] at h
  cases h

theorem Consistent.exact_of_idle (h : s.Consistent) (hs : s.Idle) (i : Uuid) : s.ExactAt i :=
  h.exact i fun _ hp => absurd hp (not_pending hs)

theorem consistent_of_idle (hs : s.Idle) (h : ∀ i, s.ExactAt i) : s.Consistent where
  exact i _ := h i
  spawned _ hp := absurd hp (not_pending hs)
  sound _ _ hp := absurd hp (not_pending hs)
  gone _ _ hp := absurd hp (not_pending hs)

theorem consistent_new (config : AgentConfig) (vncPort : UInt16) :
    (new config vncPort).Consistent := by
  refine consistent_of_idle (idle_of_eq rfl rfl) ?_
  intro i t
  simp [new, Runs]

theorem Consistent.spawn {port : UInt16} (h : s.Consistent) (hpc : s.pc = .reading)
    (ht : s.tasks t = none) (hpc' : s'.pc = .inserting t)
    (htable : s'.activeTunnels = s.activeTunnels)
    (htasks : s'.tasks = Function.update s.tasks t (some ⟨i, port, true⟩)) : s'.Consistent := by
  have hex := h.exact_of_idle (idle_of_eq hpc rfl)
  have hti : s'.Runs t i := (runs_spawn ht htasks).mpr (.inl ⟨rfl, rfl⟩)
  have hpend : ∀ {p}, s'.pc = .inserting p → p = t := fun hp => by
    rw [hpc'] at hp
    cases hp
    rfl
  constructor
  · intro j hj t'
    have hne : j ≠ i := by
      rintro rfl
      exact hj t hpc' hti.isFor
    rw [htable, runs_spawn ht htasks]
    simp only [hne, and_false, false_or]
    exact hex j t'
  · intro p hp
    obtain rfl := hpend hp
    exact ⟨i, hti.isFor⟩
  · intro p j hp _ t' hl
    obtain rfl := hpend hp
    rw [htable] at hl
    have hr : s.Runs t' j := (hex j t').mp hl
    refine ⟨?_, (runs_spawn ht htasks).mpr (.inr hr)⟩
    rintro rfl
    obtain ⟨_, hr⟩ := hr
    rw [ht] at hr
    cases hr
  · intro p j hp hj hr
    obtain rfl := hpend hp
    obtain rfl := hti.isFor.session_eq hj
    exact absurd hti hr

theorem Consistent.insert (h : s.Consistent) (hpc : s.pc = .inserting t) (hi : s.IsFor t i)
    (hgood : ∀ t', s.Runs t' i ↔ t' = t) (hpc' : s'.Idle)
    (htable : s'.activeTunnels = s.activeTunnels.insert i t) (htasks : s'.tasks = s.tasks) :
    s'.Consistent := by
  refine consistent_of_idle hpc' fun j t' => ?_
  rw [runs_congr htasks, htable]
  by_cases hj : j = i
  · subst hj
    rw [hgood, AList.lookup_insert, Option.some_inj, eq_comm]
  · rw [AList.lookup_insert_ne hj]
    refine h.exact j (fun p hp hfor => ?_) t'
    rw [hpc] at hp
    cases hp
    exact hj (hfor.session_eq hi)

theorem Consistent.finish {port : UInt16} (h : s.Consistent)
    (ht : s.tasks t = some ⟨i, port, true⟩) (hpc' : s'.pc = s.pc)
    (htable : s'.activeTunnels = s.activeTunnels.erase i)
    (htasks : s'.tasks = Function.update s.tasks t (some ⟨i, port, false⟩)) : s'.Consistent := by
  have hti : s.Runs t i := ⟨port, ht⟩
  have hother : ∀ {t' j}, j ≠ i → s.Runs t' j → t' ≠ t := by
    rintro t' j hji hr rfl
    exact hji (hr.isFor.session_eq hti.isFor)
  constructor
  · intro j hj t'
    have hex := h.exact j fun p hp hfor =>
      hj p (hpc'.trans hp) ((isFor_finish ht htasks).mpr hfor)
    rw [htable, runs_finish htasks]
    by_cases hji : j = i
    · subst hji
      rw [AList.lookup_erase]
      constructor
      · rintro ⟨⟩
      · rintro ⟨hne, hr⟩
        have hl := (hex t).mpr hti
        rw [(hex t').mpr hr] at hl
        exact absurd (Option.some.inj hl) hne
    · rw [AList.lookup_erase_ne hji, hex t']
      exact ⟨fun hr => ⟨hother hji hr, hr⟩, And.right⟩
  · intro p hp
    obtain ⟨j, hj⟩ := h.spawned p (hpc' ▸ hp)
    exact ⟨j, (isFor_finish ht htasks).mpr hj⟩
  · intro p j hp hj t' hl
    rw [htable] at hl
    by_cases hji : j = i
    · subst hji
      rw [AList.lookup_erase] at hl
      cases hl
    · rw [AList.lookup_erase_ne hji] at hl
      obtain ⟨hne, hr⟩ := h.sound p j (hpc' ▸ hp) ((isFor_finish ht htasks).mp hj) t' hl
      exact ⟨hne, (runs_finish htasks).mpr ⟨hother hji hr, hr⟩⟩
  · intro p j hp hj hr
    rw [htable]
    by_cases hji : j = i
    · subst hji
      exact AList.lookup_erase _ _
    · rw [AList.lookup_erase_ne hji]
      refine h.gone p j (hpc' ▸ hp) ((isFor_finish ht htasks).mp hj) fun hrun => ?_
      exact hr ((runs_finish htasks).mpr ⟨hother hji hrun, hrun⟩)

theorem Consistent.drain (h : s.Consistent) : s.abortAllTunnels.Consistent := by
  have hempty : ∀ j, s.abortAllTunnels.activeTunnels.lookup j = none :=
    fun j => AList.lookup_empty j
  constructor
  · intro j hj t'
    have hex := h.exact j fun p hp hfor => hj p hp (isFor_abortAllTunnels.mpr hfor)
    rw [hempty, runs_abortAllTunnels]
    constructor
    · rintro ⟨⟩
    · rintro ⟨hr, hfree⟩
      exact absurd ((hex t').mpr hr) (hfree j)
  · intro p hp
    obtain ⟨j, hj⟩ := h.spawned p hp
    exact ⟨j, isFor_abortAllTunnels.mpr hj⟩
  · intro p j _ _ t' hl
    rw [hempty] at hl
    cases hl
  · exact fun _ j _ _ _ => hempty j

theorem Consistent.abort (h : s.Consistent) (hpc : s.pc = .inserting t) (hi : s.IsFor t i)
    (hgood : ∀ t', ¬ s.Runs t' i) (hpc' : s'.Idle)
    (htable : s'.activeTunnels = s.activeTunnels) (htasks : s'.tasks = s.tasks) :
    s'.Consistent := by
  refine consistent_of_idle hpc' fun j t' => ?_
  rw [runs_congr htasks, htable]
  by_cases hj : j = i
  · subst hj
    simp [h.gone t j hpc hi (hgood t), hgood t']
  · refine h.exact j (fun p hp hfor => ?_) t'
    rw [hpc] at hp
    cases hp
    exact hj (hfor.session_eq hi)

theorem Consistent.tableExact (h : s.Consistent) : s.TableExact := fun hs =>
  ⟨h.exact_of_idle hs, fun _ _ => not_runs_abortAllTunnels (h.exact_of_idle hs)⟩

theorem Consistent.step (h : s.Consistent) (hgood : s.Orderly e) : (s.step e).Consistent := by
  have hm := step_tableMove s e
  generalize s.step e = s' at hm
  cases hm with
  | stutter => exact h
  | idle hpc hpc' htable htasks =>
    refine consistent_of_idle hpc' fun i t => ?_
    rw [runs_congr htasks, htable]
    exact h.exact_of_idle hpc i t
  | spawn hpc ht => exact h.spawn hpc ht rfl rfl rfl
  | @insert t i port running hpc ht =>
    have hi : s.IsFor t i := ⟨port, running, ht⟩
    exact h.insert hpc hi (hgood t i hpc hi) rfl rfl rfl
  | finish ht => exact h.finish ht rfl rfl rfl
  | drain => exact h.drain
  | abort hpc =>
    obtain ⟨i, hi⟩ := h.spawned _ hpc
    exact h.abort hpc hi (hgood _ i hpc hi) rfl rfl rfl

/-- A step that leaves the table exact was orderly. -/
theorem Consistent.orderly (h : s.Consistent) (hex : (s.step e).TableExact) : s.Orderly e := by
  cases e with
  | locked =>
    intro t i hpc hi t'
    obtain ⟨port, running, ht⟩ := hi
    simp only [CoordinatorClient.step, hpc, ht] at hex
    have hl := (hex rfl).1 i t'
    rw [AList.lookup_insert, Option.some_inj] at hl
    exact ⟨fun hr => (hl.mpr hr).symm, fun he => hl.mp he.symm⟩
  | abort =>
    intro t i hpc hi
    have hl := (hex rfl).1 i
    have hnone : s.activeTunnels.lookup i = none := by
      refine h.gone t i hpc hi fun hr => ?_
      exact (h.sound t i hpc hi t ((hl t).mpr hr)).1 rfl
    intro t' hr
    have hsome : s.activeTunnels.lookup i = some t' := (hl t').mpr hr
    rw [hnone] at hsome
    cases hsome
  | _ => trivial

/-- The table is exact outside dispatch steps just when every handle is inserted for a running
task that is alone in its session, and the loop is not aborted in between. -/
theorem tunnels_exact_iff (config : AgentConfig) (vncPort : UInt16) (es : List LoopEvent) :
    Transition.Always CoordinatorClient.step TableExact (new config vncPort) es ↔
      Transition.Steps CoordinatorClient.step Orderly (new config vncPort) es :=
  Transition.always_iff_steps_of_all (fun _ _ h hgood => h.step hgood) (fun _ h => h.tableExact)
    (fun _ _ h hex => h.orderly hex) (consistent_new config vncPort)

def shortTunnel : List LoopEvent :=
  [.connect true none, .frame (tunnelReady ⟨0⟩) 0, .tunnelEnd 0, .locked]

/-- A tunnel that ends before its handle is inserted leaves the handle behind. -/
theorem stale_handle : ¬ ∀ (config : AgentConfig) (vncPort : UInt16) (es : List LoopEvent),
    Transition.Always CoordinatorClient.step TableExact (new config vncPort) es := by
  intro h
  have hrun := h .default 5900 shortTunnel _ List.prefix_rfl
  obtain ⟨port, ht⟩ := ((hrun (by decide +kernel)).1 ⟨0⟩ 0).mp (by decide +kernel)
  have hended : ((Transition.run CoordinatorClient.step (new .default 5900) shortTunnel).tasks
      0).map (·.running) = some false := by decide +kernel
  rw [ht] at hended
  cases hended

end CoordinatorClient

end Urc
