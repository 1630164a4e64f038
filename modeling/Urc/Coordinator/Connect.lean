import Urc.Coordinator.RelayOrder
import Urc.Coordinator.Server

/-! # Connecting a client to its agent

A `Connect` reads the record of the agent, looks its control channel up again, announces
the session there, creates the session and answers. Other tasks run between any two of
these, so what the answer promises depends on what they leave in place.
-/

namespace Urc

open Transition

/-- The frames that end a `Connect`. -/
def isAnswer : Message → Bool
  | .text (.coordinator (.connectOk _ _)) | .text (.coordinator (.connectErr _)) => true
  | _ => false

theorem isAnswer_hint (a : AgentRecord) (id : Uuid) : isAnswer (hint a id) = false := by
  unfold hint
  split <;> rfl

theorem countP_answer (a : AgentRecord) (id : Uuid) :
    [.ofMessage (CoordinatorMessage.connectOk id (relayMode a)), hint a id].countP isAnswer =
      1 := by
  rw [List.countP_cons, List.countP_singleton, isAnswer_hint]
  rfl

/-- The number of `Connect`s that the task has read and not answered yet. -/
def ClientPc.unanswered : ClientPc → ℕ
  | .unopened | .reading | .returned => 0
  | _ => 1

namespace Server

variable {s s' : Server} {e : Event} {c d : ConnId} {a : AgentRecord} {id : Uuid}

/-! ### What the agents were sent -/

def Idle (s : Server) : Prop :=
  ∀ c, (s.agents c).pc = .unopened → (s.agents c).control = [] ∧ (s.agents c).rxOpen = false

/-- Decisions and the frames of the control channels are never taken back. -/
structure Grows (s s' : Server) : Prop where
  decided : s.decided ⊆ s'.decided
  control : ∀ d m, m ∈ (s.agents d).control → m ∈ (s'.agents d).control

theorem idle_new (secret : String) : Idle (.new secret) := fun c _ => by simp [new]

theorem Idle.move (h : Idle s) (hm : Move s e s') : Idle s' := by
  intro d hd
  have hset : ∀ {c : ConnId} {x : AgentConn} {t : Server}, t.agents = (s.setAgent c x).agents →
      (t.agents d).pc = .unopened → (x.pc = .unopened → x.control = [] ∧ x.rxOpen = false) →
      (t.agents d).control = [] ∧ (t.agents d).rxOpen = false := by
    intro c x t ht hpc hx
    rw [ht, setAgent_agents] at hpc ⊢
    split_ifs at hpc ⊢
    · exact hx hpc
    · exact h d hpc
  cases hm with
  | agentOpen hpc => exact hset rfl hd (by simp)
  | register hpc ht => exact hset rfl hd (by simp)
  | reject hpc ht => exact hset rfl hd (by simp)
  | leave hpc he => exact hset rfl hd (by simp)
  | reply hpc => exact hset rfl hd (by simp)
  | returnEmpty hpc hid => exact hset rfl hd (by simp)
  | unregister hpc hid => exact hset rfl hd (by simp)
  | agentCloseRx hpc => exact hset rfl hd (by simp [hpc])
  | @announce c agent id t hpc =>
    exact hset rfl hd fun ht => by simp [h t ht]
  | _ => exact h d hd

theorem grows_move (h : Idle s) (hm : Move s e s') : Grows s s' := by
  have hset : ∀ {c : ConnId} {x : AgentConn} {t : Server}, t.agents = (s.setAgent c x).agents →
      (s.agents c).control ⊆ x.control → ∀ d m, m ∈ (s.agents d).control →
      m ∈ (t.agents d).control := by
    intro c x t ht hx d m hm
    rw [ht, setAgent_agents]
    split_ifs with hd
    · exact hx (hd ▸ hm)
    · exact hm
  cases hm with
  | @agentOpen c hpc => exact ⟨List.Subset.refl _, hset rfl (by simp [h c hpc])⟩
  | register hpc ht => exact ⟨List.Subset.refl _, hset rfl (List.Subset.refl _)⟩
  | reject hpc ht => exact ⟨List.Subset.refl _, hset rfl (List.Subset.refl _)⟩
  | leave hpc he => exact ⟨List.Subset.refl _, hset rfl (List.Subset.refl _)⟩
  | reply hpc => exact ⟨List.Subset.refl _, hset rfl (List.subset_append_left _ _)⟩
  | returnEmpty hpc hid => exact ⟨List.Subset.refl _, hset rfl (List.Subset.refl _)⟩
  | unregister hpc hid => exact ⟨List.Subset.refl _, hset rfl (List.Subset.refl _)⟩
  | agentCloseRx hpc => exact ⟨List.Subset.refl _, hset rfl (List.Subset.refl _)⟩
  | announce hpc => exact ⟨List.Subset.refl _, hset rfl (List.subset_append_left _ _)⟩
  | connect hpc ht ha hid => exact ⟨List.subset_append_left _ _, fun _ _ hm => hm⟩
  | _ => exact ⟨List.Subset.refl _, fun _ _ hm => hm⟩

/-! ### A `ConnectOk` and the announcement behind it -/

/-- The session was decided by a record, and announced on the control channel of that record. -/
def ToldOf (s : Server) (a : AgentRecord) (id : Uuid) : Prop :=
  (id, a) ∈ s.decided ∧ tunnelReady id ∈ (s.agents a.controlTx).control

/--
Every `ConnectOk` was announced to the agent whose record decided its relay mode, and every
`Connect` that a task has finished with was answered, once.
-/
structure Told (s : Server) : Prop where
  told : ∀ c id mode, .ofMessage (CoordinatorMessage.connectOk id mode) ∈ (s.clients c).out →
    ∃ a, mode = relayMode a ∧ s.ToldOf a id
  answered : ∀ c, (s.clients c).out.countP isAnswer + (s.clients c).pc.unanswered =
    (s.clients c).connects

/--
Nothing comes between the steps of a `Connect`: the second lookup meets a record with the
control channel of the first, and that channel takes the announcement.
-/
def Undisturbed (s : Server) : Event → Prop
  | .clientStep c =>
    match (s.clients c).pc with
    | .gotAgent hostId agent _ =>
      ∃ r, s.state.getAgent hostId = some r ∧ r.controlTx = agent.controlTx
    | .gotTx agent _ _ => (s.agents agent.controlTx).rxOpen = true
    | _ => True
  | _ => True

/-- What a task in the middle of a `Connect` knows about its session. -/
def Holds (s : Server) : ClientPc → Prop
  | .gotAgent _ a id => (id, a) ∈ s.decided
  | .gotTx a id tx => (id, a) ∈ s.decided ∧ tx = some a.controlTx
  | .announced a id | .created a id => s.ToldOf a id
  | _ => True

/-- The invariant of a client task, from which `Told` is read off. -/
structure Informed (s : Server) (k : ClientConn) : Prop where
  holds : s.Holds k.pc
  told : ∀ id mode, .ofMessage (CoordinatorMessage.connectOk id mode) ∈ k.out →
    ∃ a, mode = relayMode a ∧ s.ToldOf a id
  answered : k.out.countP isAnswer + k.pc.unanswered = k.connects

theorem ToldOf.mono (hg : Grows s s') (h : s.ToldOf a id) : s'.ToldOf a id :=
  ⟨hg.decided h.1, hg.control _ _ h.2⟩

theorem Informed.mono {k : ClientConn} (hg : Grows s s') (h : s.Informed k) : s'.Informed k := by
  refine ⟨?_, fun id mode hm => ?_, h.answered⟩
  · have hk := h.holds
    cases hpc : k.pc with
    | gotAgent hostId a id => rw [hpc] at hk; exact hg.decided hk
    | gotTx a id tx => rw [hpc] at hk; exact ⟨hg.decided hk.1, hk.2⟩
    | announced a id => rw [hpc] at hk; exact ToldOf.mono hg hk
    | created a id => rw [hpc] at hk; exact ToldOf.mono hg hk
    | unopened => trivial
    | reading => trivial
    | returned => trivial
  · obtain ⟨a, hmode, ha⟩ := h.told id mode hm
    exact ⟨a, hmode, ha.mono hg⟩

/-- A task that moves without a new frame keeps its invariant if it knows what the new place
asks. -/
theorem Informed.goto {k : ClientConn} {pc : ClientPc} (h : s.Informed k)
    (hu : pc.unanswered = k.pc.unanswered) (hp : s.Holds pc) : s.Informed { k with pc := pc } :=
  ⟨hp, h.told, by rw [← h.answered]; exact congrArg _ hu⟩

theorem Informed.refuse {k : ClientConn} {reason : String} (h : s.Informed k)
    (hpc : k.pc = .reading) : s.Informed { k with
      out := k.out ++ [.ofMessage (CoordinatorMessage.connectErr reason)]
      connects := k.connects + 1 } := by
  refine ⟨by simp [hpc, Holds], fun id mode hm => h.told id mode ?_, ?_⟩
  · simpa [Message.ofMessage, toWsMessage] using hm
  · have hcount := h.answered
    simp only [hpc, ClientPc.unanswered] at hcount
    simp [List.countP_append, isAnswer, Message.ofMessage, toWsMessage, hpc,
      ClientPc.unanswered, ← hcount]

/-- The answer is about the session that was announced; the hint behind it is no answer. -/
theorem Informed.answer {k : ClientConn} (h : s.Informed k) (hpc : k.pc = .created a id)
    (ht : s.ToldOf a id) : s.Informed { k with
      pc := .reading
      out := k.out ++
        [.ofMessage (CoordinatorMessage.connectOk id (relayMode a)), hint a id] } := by
  refine ⟨trivial, fun id' mode hm => ?_, ?_⟩
  · rcases List.mem_append.mp hm with hm | hm
    · exact h.told id' mode hm
    · rcases List.mem_cons.mp hm with hm | hm
      · simp only [Message.ofMessage, toWsMessage, Message.text.injEq, WsText.coordinator.injEq,
          CoordinatorMessage.connectOk.injEq] at hm
        obtain ⟨rfl, rfl⟩ := hm
        exact ⟨a, rfl, ht⟩
      · have hfalse := isAnswer_hint a id
        rw [← List.mem_singleton.mp hm] at hfalse
        simp [isAnswer, Message.ofMessage, toWsMessage] at hfalse
  · have hcount := h.answered
    simp only [hpc, ClientPc.unanswered] at hcount
    rw [← hcount, List.countP_append, countP_answer]
    rfl

theorem informed_move (hi : Idle s) (h : ∀ c, s.Informed (s.clients c)) (hm : Move s e s')
    (hg : Undisturbed s e) : ∀ c, s'.Informed (s'.clients c) := by
  intro d
  have hgrow : Grows s s' := grows_move hi hm
  have hold : ∀ d, s'.Informed (s.clients d) := fun d => (h d).mono hgrow
  have hset : ∀ {c : ConnId} {x : ClientConn}, s'.clients = (s.setClient c x).clients →
      s'.Informed x → s'.Informed (s'.clients d) := fun hs hx =>
    of_setClient (P := s'.Informed) hs (hold d) fun _ => hx
  cases hm with
  | @clientOpen c hpc => exact hset rfl ⟨trivial, by simp, rfl⟩
  | @refuse c hostId token id reason hpc ht => exact hset rfl ((hold c).refuse hpc)
  | @connect c hostId token id agent hpc ht ha hid =>
    refine hset rfl ⟨by simp [Holds], (hold c).told, ?_⟩
    have hcount := (hold c).answered
    simp only [hpc, ClientPc.unanswered] at hcount
    simp [ClientPc.unanswered, ← hcount]
  | @clientLeave c e hpc he => exact hset rfl ((hold c).goto (by rw [hpc]; rfl) trivial)
  | @lookupTx c hostId agent id hpc =>
    refine hset rfl ((hold c).goto (by rw [hpc]; rfl) ?_)
    have hk := (h c).holds
    simp only [hpc, Holds] at hk
    simp only [Undisturbed, hpc] at hg
    obtain ⟨r, hr, htx⟩ := hg
    exact ⟨hk, by rw [AppState.agentControlTx_eq, hr, Option.map_some, htx]⟩
  | @announce c agent id t hpc =>
    refine hset rfl ((hold c).goto (by rw [hpc]; rfl) ?_)
    have hk := (h c).holds
    simp only [hpc, Holds, Option.some_inj] at hk
    simp only [Undisturbed, hpc] at hg
    obtain ⟨hd, rfl⟩ := hk
    exact ⟨hd, by simp [setAgent_agents, hg]⟩
  | @skip c agent id hpc =>
    have hk := (h c).holds
    simp [hpc, Holds] at hk
  | @create c agent id hpc =>
    refine hset rfl ((hold c).goto (by rw [hpc]; rfl) ?_)
    have hk := (h c).holds
    rw [hpc] at hk
    exact ToldOf.mono hgrow hk
  | @answer c agent id hpc =>
    have htold : s.ToldOf agent id := by simpa [hpc, Holds] using (h c).holds
    exact hset rfl ((hold c).answer hpc (htold.mono hgrow))
  | _ => exact hold d

theorem told_of_informed (h : ∀ c, s.Informed (s.clients c)) : Told s :=
  ⟨fun c => (h c).told, fun c => (h c).answered⟩

/--
If nothing comes between the steps of a `Connect`, every `ConnectOk` was announced on the control
channel of the record that decided it, and every other `Connect` was answered with an error.
-/
theorem connectOk_told (secret : String) (es : List Event)
    (h : Steps step Undisturbed (.new secret) es) : Always step Told (.new secret) es := by
  have hkeep : ∀ s e, (Idle s ∧ ∀ c, s.Informed (s.clients c)) → Undisturbed s e →
      Idle (s.step e) ∧ ∀ c, (s.step e).Informed ((s.step e).clients c) := fun s e hs hg =>
    ⟨hs.1.move (step_move s e), informed_move hs.1 hs.2 (step_move s e) hg⟩
  have h0 : ∀ c, (new secret).Informed ((new secret).clients c) := fun c =>
    ⟨trivial, by simp [new], rfl⟩
  exact (h.always hkeep ⟨idle_new secret, h0⟩).mono fun _ hs => told_of_informed hs.2

def dialDesk : List Event :=
  [.agentOpen 0, .agentFrame 0 (.text (.agent (.register "desk" "t" none 5900))) 0, .agentStep 0,
    .clientOpen 0, .clientFrame 0 (.text (.client (.connect "desk" "t"))) ⟨7⟩]

theorem connectOk_told_dialDesk : Always step Told (.new "t")
    (dialDesk ++ [.clientStep 0, .clientStep 0, .clientStep 0, .clientStep 0]) :=
  connectOk_told "t" _ ⟨trivial, trivial, trivial, trivial, trivial,
    ⟨⟨"desk", none, 5900, 0, 0⟩, by decide, rfl⟩, rfl, trivial, trivial, trivial⟩

/-- The host leaves between the two lookups, and the client is still answered with `ConnectOk`. -/
theorem connectOk_not_told : ¬ ∀ secret es, Always step Told (.new secret) es := by
  intro h
  let es := dialDesk ++ [.agentEnd 0, .agentStep 0, .clientStep 0, .clientStep 0, .clientStep 0,
    .clientStep 0]
  have hout : .ofMessage (CoordinatorMessage.connectOk ⟨7⟩ .relayed) ∈
      ((run step (.new "t") es).clients 0).out := by decide
  obtain ⟨a, -, hd, hc⟩ := (h "t" es _ List.prefix_rfl).told 0 _ _ hout
  have hdec : (run step (.new "t") es).decided = [(⟨7⟩, ⟨"desk", none, 5900, 0, 0⟩)] := by decide
  rw [hdec, List.mem_singleton, Prod.mk.injEq] at hd
  obtain ⟨-, rfl⟩ := hd
  have hcontrol : ((run step (.new "t") es).agents 0).control =
      [.ofMessage (CoordinatorMessage.registered "desk")] := by decide
  rw [hcontrol] at hc
  exact absurd hc (by decide)

end Server

end Urc
