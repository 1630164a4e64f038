import Urc.Coordinator.Server

/-! # The registry of online agents

A record is keyed by its host id only, and the end of a connection removes the id that
the connection registered last, whoever holds it by then. Both laws of the registry
therefore hold exactly along the runs in which no ending connection meets such a record.
-/

namespace Urc

open Transition

def AgentConn.Open (a : AgentConn) : Prop :=
  match a.pc with
  | .reading | .replying _ => True
  | _ => False

namespace Server

variable {s s' : Server} {e : Event}

/-- The last connection whose `Register` for a host was accepted owns the record while open. -/
def Registered (s : Server) : Prop :=
  ∀ h c, s.registrar h = some c → (s.agents c).Open →
    ∃ r, s.state.getAgent h = some r ∧ r.controlTx = c

/-- A connection that ends removes no record of another connection that is open. -/
def SparesOthers (s : Server) : Event → Prop
  | .agentStep c => (s.agents c).pc = .leaving → (s.agents c).hostId ≠ "" →
      ∀ r, s.state.getAgent (s.agents c).hostId = some r → r.controlTx ≠ c →
        ¬ (s.agents r.controlTx).Open
  | _ => True

/--
A record names its key, belongs to the connection that registered the key last, and that
connection was opened.
-/
structure Recorded (s : Server) : Prop where
  keyed : ∀ h r, s.state.getAgent h = some r → r.hostId = h
  registrar : ∀ h r, s.state.getAgent h = some r → s.registrar h = some r.controlTx
  opened : ∀ h c, s.registrar h = some c → (s.agents c).pc ≠ .unopened

theorem recorded_new (secret : String) : Recorded (.new secret) := by
  constructor <;> simp [new, AppState.new, AppState.getAgent]

theorem of_setAgent {P : AgentConn → Prop} {c d : ConnId} {a : AgentConn}
    (h : P ((s.setAgent c a).agents d)) (ha : P a → P (s.agents c)) : P (s.agents d) := by
  rw [setAgent_agents] at h
  split_ifs at h with hd
  · exact hd ▸ ha h
  · exact h

theorem opened_move {d : ConnId} (hm : Move s e s') (h : (s.agents d).pc ≠ .unopened) :
    (s'.agents d).pc ≠ .unopened := by
  refine fun hd => h ?_
  cases hm with
  | agentOpen hpc => exact of_setAgent (P := (·.pc = .unopened)) hd (by simp)
  | register hpc ht => exact of_setAgent (P := (·.pc = .unopened)) hd (by simp)
  | reject hpc ht => exact of_setAgent (P := (·.pc = .unopened)) hd (by simp)
  | leave hpc he => exact of_setAgent (P := (·.pc = .unopened)) hd (by simp)
  | reply hpc => exact of_setAgent (P := (·.pc = .unopened)) hd (by simp)
  | returnEmpty hpc hid => exact of_setAgent (P := (·.pc = .unopened)) hd (by simp)
  | unregister hpc hid => exact of_setAgent (P := (·.pc = .unopened)) hd (by simp)
  | agentCloseRx hpc => exact of_setAgent (P := (·.pc = .unopened)) hd id
  | announce hpc =>
    rw [setClient_agents] at hd
    exact of_setAgent (P := (·.pc = .unopened)) hd id
  | _ => exact hd

theorem Recorded.move (h : Recorded s) (hm : Move s e s') : Recorded s' := by
  have ho : ∀ k c, s.registrar k = some c → (s'.agents c).pc ≠ .unopened :=
    fun k c hk => opened_move hm (h.opened k c hk)
  obtain ⟨hn, hr, -⟩ := h
  cases hm with
  | @register c id token ip port now hpc ht =>
    refine ⟨fun k r hk => ?_, fun k r hk => ?_, fun k d hk => ?_⟩
    · rw [AppState.getAgent_registerAgent] at hk
      split_ifs at hk with hki
      · obtain rfl := Option.some_inj.mp hk
        exact hki.symm
      · exact hn k r hk
    · rw [AppState.getAgent_registerAgent] at hk
      dsimp only
      rw [Function.update_apply]
      split_ifs at hk ⊢ with hki
      · obtain rfl := Option.some_inj.mp hk
        rfl
      · exact hr k r hk
    · dsimp only at hk
      rw [Function.update_apply] at hk
      split_ifs at hk with hki
      · obtain rfl := Option.some_inj.mp hk
        simp [setAgent_agents]
      · exact ho k d hk
  | @touch c id now hpc =>
    have hback : ∀ k r, (s.state.touchAgent id now).getAgent k = some r →
        ∃ r₀, s.state.getAgent k = some r₀ ∧ r₀.hostId = r.hostId ∧ r₀.controlTx = r.controlTx := by
      intro k r hk
      rw [AppState.getAgent_touchAgent] at hk
      split_ifs at hk with hki
      · obtain ⟨r₀, hr₀, rfl⟩ := Option.map_eq_some_iff.mp hk
        exact ⟨r₀, hki ▸ hr₀, rfl, rfl⟩
      · exact ⟨r, hk, rfl, rfl⟩
    refine ⟨fun k r hk => ?_, fun k r hk => ?_, ho⟩
    · obtain ⟨r₀, hr₀, hname, -⟩ := hback k r hk
      exact hname ▸ hn k r₀ hr₀
    · obtain ⟨r₀, hr₀, -, htx⟩ := hback k r hk
      exact htx ▸ hr k r₀ hr₀
  | @unregister c hpc hid =>
    have hback : ∀ k r, (s.state.unregisterAgent (s.agents c).hostId).getAgent k = some r →
        s.state.getAgent k = some r := by
      intro k r hk
      rw [AppState.getAgent_unregisterAgent] at hk
      split_ifs at hk
      exact hk
    exact ⟨fun k r hk => hn k r (hback k r hk), fun k r hk => hr k r (hback k r hk), ho⟩
  | _ => exact ⟨hn, hr, ho⟩

/-- A step that spares the records of the others keeps every live registration. -/
theorem Registered.move (hr : Recorded s) (h : Registered s) (hm : Move s e s')
    (hg : SparesOthers s e) : Registered s' := by
  intro k d hk ho
  cases hm with
  | @register c id token ip port now hpc ht =>
    dsimp only at hk ⊢
    rw [AppState.getAgent_registerAgent]
    rw [Function.update_apply] at hk
    split_ifs at hk ⊢ with hki
    · exact ⟨_, rfl, Option.some_inj.mp hk⟩
    · refine h k d hk ?_
      by_cases hd : d = c
      · simp [hd, AgentConn.Open, hpc]
      · simpa [setAgent_agents, hd] using ho
  | @touch c id now hpc =>
    obtain ⟨r, hkr, rfl⟩ := h k d hk ho
    dsimp only
    rw [AppState.getAgent_touchAgent]
    split_ifs with hki
    · subst hki
      exact ⟨{ r with lastSeen := now }, by rw [hkr, Option.map_some], rfl⟩
    · exact ⟨r, hkr, rfl⟩
  | @unregister c hpc hid =>
    have hdc : d ≠ c := by
      rintro rfl
      simp [AgentConn.Open, setAgent_agents] at ho
    have ho' : (s.agents d).Open := by simpa [setAgent_agents, hdc] using ho
    obtain ⟨r, hkr, rfl⟩ := h k d hk ho'
    have hkc : k ≠ (s.agents c).hostId := by
      rintro rfl
      exact hg hpc hid r hkr hdc ho'
    refine ⟨r, ?_, rfl⟩
    dsimp only
    rw [AppState.getAgent_unregisterAgent, if_neg hkc]
    exact hkr
  | @agentOpen c hpc =>
    refine h k d hk ?_
    have hdc : d ≠ c := fun hd => hr.opened k d hk (hd ▸ hpc)
    simpa [setAgent_agents, hdc] using ho
  | @reply c id hpc =>
    refine h k d hk ?_
    by_cases hd : d = c
    · simp [hd, AgentConn.Open, hpc]
    · simpa [setAgent_agents, hd] using ho
  | reject hpc ht => exact h k d hk (of_setAgent (P := AgentConn.Open) ho False.elim)
  | leave hpc he => exact h k d hk (of_setAgent (P := AgentConn.Open) ho False.elim)
  | returnEmpty hpc hid => exact h k d hk (of_setAgent (P := AgentConn.Open) ho False.elim)
  | agentCloseRx hpc => exact h k d hk (of_setAgent (P := AgentConn.Open) ho id)
  | announce hpc =>
    rw [setClient_agents] at ho
    exact h k d hk (of_setAgent (P := AgentConn.Open) ho id)
  | _ => exact h k d hk ho

theorem step_unregister {c : ConnId} (hpc : (s.agents c).pc = .leaving)
    (hid : (s.agents c).hostId ≠ "") :
    s.step (.agentStep c) = { s.setAgent c { s.agents c with pc := .returned } with
      state := s.state.unregisterAgent (s.agents c).hostId } := by
  simp [step, agentStep, hpc, hid]

/-- Every record survives the end of older connections exactly when each end spares the others. -/
theorem registered_iff_sparesOthers (secret : String) (es : List Event) :
    Always step Registered (.new secret) es ↔ Steps step SparesOthers (.new secret) es := by
  have hkeep : ∀ s e, (Recorded s ∧ Registered s) → SparesOthers s e →
      Recorded (s.step e) ∧ Registered (s.step e) := fun s e h hg =>
    ⟨h.1.move (step_move s e), h.2.move h.1 (step_move s e) hg⟩
  have hexact : ∀ s e, (Recorded s ∧ Registered s) → Registered (s.step e) →
      SparesOthers s e := by
    intro s e h hs
    cases e with
    | agentStep c =>
      -- the removal leaves the other connection open and registered, without its record
      intro hpc hid r hr hrc ho
      rw [step_unregister hpc hid] at hs
      have hopen :
          ((s.setAgent c { s.agents c with pc := .returned }).agents r.controlTx).Open := by
        rwa [setAgent_agents, if_neg hrc]
      obtain ⟨r', hr', -⟩ := hs _ _ (h.1.registrar _ r hr) hopen
      rw [AppState.getAgent_unregisterAgent, if_pos rfl] at hr'
      cases hr'
    | _ => trivial
  have h0 : Registered (.new secret) := fun h c hc => by simp [new] at hc
  exact always_iff_steps_of_all hkeep (fun _ h => h.2) hexact ⟨recorded_new secret, h0⟩

/-- A reconnecting agent whose old socket ends after the new `Register`. -/
def reconnect : List Event :=
  [.agentOpen 0, .agentFrame 0 (.text (.agent (.register "desk" "t" none 5900))) 0, .agentStep 0,
    .agentOpen 1, .agentFrame 1 (.text (.agent (.register "desk" "t" none 5900))) 1, .agentStep 1,
    .agentEnd 0, .agentStep 0]

theorem reconnect_loses_registration :
    ¬ ∀ secret es, Always step Registered (.new secret) es := by
  intro h
  obtain ⟨r, hr, -⟩ := h "t" reconnect _ List.prefix_rfl "desk" 1 (by decide) (by trivial)
  have hnone : (run step (.new "t") reconnect).state.getAgent "desk" = none := by decide
  rw [hnone] at hr
  cases hr

/-! ### Records of returned handlers -/

def NoneHeld (s : Server) : Prop :=
  ∀ c, (s.agents c).pc = .returned → ∀ h r, s.state.getAgent h = some r → r.controlTx ≠ c

/-- Lookups and listings only report hosts whose handler is running. -/
structure NoGhosts (s : Server) : Prop where
  held : NoneHeld s
  found : ∀ h r, s.state.getAgent h = some r →
    (s.agents r.controlTx).pc ≠ .unopened ∧ (s.agents r.controlTx).pc ≠ .returned
  listed : ∀ x ∈ s.state.listHosts, ∃ r, s.state.getAgent x.hostId = some r ∧
    (s.agents r.controlTx).pc ≠ .unopened ∧ (s.agents r.controlTx).pc ≠ .returned

/--
Neither exit of `handle_agent` leaves a record behind: a rejected `Register` comes on a
connection without one, and the loop ends with at most the record of the last host id.
-/
def LeavesNoRecord (s : Server) : Event → Prop
  | .agentFrame c (.text (.agent (.register _ token _ _))) _ => (s.agents c).pc = .reading →
      token ≠ s.state.secret → ∀ h r, s.state.getAgent h = some r → r.controlTx ≠ c
  | .agentStep c => (s.agents c).pc = .leaving → ∀ h r, s.state.getAgent h = some r →
      r.controlTx = c → h = (s.agents c).hostId ∧ h ≠ ""
  | _ => True

theorem NoneHeld.noGhosts (hr : Recorded s) (h : NoneHeld s) : NoGhosts s := by
  have hfound : ∀ k r, s.state.getAgent k = some r →
      (s.agents r.controlTx).pc ≠ .unopened ∧ (s.agents r.controlTx).pc ≠ .returned :=
    fun k r hk => ⟨hr.opened k _ (hr.registrar k r hk), fun hpc => h _ hpc k r hk rfl⟩
  refine ⟨h, hfound, fun x hx => ?_⟩
  obtain ⟨k, r, hk, rfl⟩ := AppState.mem_listHosts.mp hx
  obtain rfl := hr.keyed k r hk
  exact ⟨r, hk, hfound _ r hk⟩

theorem NoneHeld.move (h : NoneHeld s) (hm : Move s e s') (hg : LeavesNoRecord s e) :
    NoneHeld s' := by
  intro d hd k r hk
  cases hm with
  | @register c id token ip port now hpc ht =>
    have hdc : d ≠ c := by
      rintro rfl
      simp [setAgent_agents] at hd
    dsimp only at hk
    rw [AppState.getAgent_registerAgent] at hk
    split_ifs at hk
    · obtain rfl := Option.some_inj.mp hk
      exact hdc.symm
    · exact h d (by simpa [setAgent_agents, hdc] using hd) k r hk
  | @touch c id now hpc =>
    dsimp only at hk
    rw [AppState.getAgent_touchAgent] at hk
    split_ifs at hk
    · obtain ⟨r₀, hr₀, rfl⟩ := Option.map_eq_some_iff.mp hk
      exact h d hd id r₀ hr₀
    · exact h d hd k r hk
  | @unregister c hpc hid =>
    dsimp only at hk
    rw [AppState.getAgent_unregisterAgent] at hk
    split_ifs at hk with hkc
    by_cases hdc : d = c
    · rintro rfl
      exact hkc (hg (hdc ▸ hpc) k r hk hdc).1
    · exact h d (by simpa [setAgent_agents, hdc] using hd) k r hk
  | @returnEmpty c hpc hid =>
    by_cases hdc : d = c
    · rintro rfl
      obtain ⟨hk, hne⟩ := hg (hdc ▸ hpc) k r hk hdc
      exact hne (hk.trans hid)
    · exact h d (by simpa [setAgent_agents, hdc] using hd) k r hk
  | @reject c id token ip port now hpc ht =>
    by_cases hdc : d = c
    · exact hdc ▸ hg hpc ht k r hk
    · exact h d (by simpa [setAgent_agents, hdc] using hd) k r hk
  | agentOpen hpc => exact h d (of_setAgent (P := (·.pc = .returned)) hd (by simp)) k r hk
  | leave hpc he => exact h d (of_setAgent (P := (·.pc = .returned)) hd (by simp)) k r hk
  | reply hpc => exact h d (of_setAgent (P := (·.pc = .returned)) hd (by simp)) k r hk
  | agentCloseRx hpc => exact h d (of_setAgent (P := (·.pc = .returned)) hd id) k r hk
  | announce hpc =>
    rw [setClient_agents] at hd
    exact h d (of_setAgent (P := (·.pc = .returned)) hd id) k r hk
  | _ => exact h d hd k r hk

/-- A step after which no returned handler holds a record left none behind. -/
theorem NoneHeld.leavesNoRecord (h : NoneHeld (s.step e)) : LeavesNoRecord s e := by
  unfold LeavesNoRecord
  split
  · rename_i c id token ip port now
    intro hpc ht k r hk
    have hstep : s.step (.agentFrame c (.text (.agent (.register id token ip port))) now) =
        s.setAgent c { s.agents c with pc := .returned } := by
      simp [step, onAgentFrame, parseWsMessage, hpc, AppState.verifyToken_iff, ht]
    rw [hstep] at h
    exact h c (by simp [setAgent_agents]) k r hk
  · rename_i c
    intro hpc k r hk hrc
    by_cases hid : (s.agents c).hostId = ""
    · have hstep : s.step (.agentStep c) = s.setAgent c { s.agents c with pc := .returned } := by
        simp [step, agentStep, hpc, hid]
      rw [hstep] at h
      exact absurd hrc (h c (by simp [setAgent_agents]) k r hk)
    · rw [step_unregister hpc hid] at h
      by_cases hk' : k = (s.agents c).hostId
      · exact ⟨hk', hk' ▸ hid⟩
      · have hleft : (s.state.unregisterAgent (s.agents c).hostId).getAgent k = some r := by
          rw [AppState.getAgent_unregisterAgent, if_neg hk']
          exact hk
        exact absurd hrc (h c (by simp [setAgent, Function.update_self]) k r hleft)
  · trivial

/-- No ghost is ever reported exactly when every exit of a handler leaves no record behind. -/
theorem noGhosts_iff_leavesNoRecord (secret : String) (es : List Event) :
    Always step NoGhosts (.new secret) es ↔ Steps step LeavesNoRecord (.new secret) es := by
  have hkeep : ∀ s e, (Recorded s ∧ NoneHeld s) → LeavesNoRecord s e →
      Recorded (s.step e) ∧ NoneHeld (s.step e) := fun s e h hg =>
    ⟨h.1.move (step_move s e), h.2.move (step_move s e) hg⟩
  have h0 : NoneHeld (.new secret) := fun c hc => by simp [new] at hc
  exact always_iff_steps_of_all hkeep (fun _ h => h.2.noGhosts h.1)
    (fun _ _ _ h => h.held.leavesNoRecord) ⟨recorded_new secret, h0⟩

/-- A `Register` with a wrong token on a connection that has registered. -/
def badReregister : List Event :=
  [.agentOpen 0, .agentFrame 0 (.text (.agent (.register "desk" "t" none 5900))) 0, .agentStep 0,
    .agentFrame 0 (.text (.agent (.register "desk" "u" none 5900))) 1]

theorem badReregister_leaves_ghost : ¬ ∀ secret es, Always step NoGhosts (.new secret) es := by
  intro h
  have hheld := (h "t" badReregister _ List.prefix_rfl).held
  exact hheld 0 (by decide) "desk" ⟨"desk", none, 5900, 0, 0⟩ (by decide) rfl

end Server

end Urc
