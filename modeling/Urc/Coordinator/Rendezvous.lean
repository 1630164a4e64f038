import Urc.Coordinator.Connect

/-! # Agent legs and their sessions

`handle_client` announces a session before it creates it, so an agent that reacts at once
attaches to nothing. A leg that an announcement opened finds its session exactly when the
creation has come in between, and no leg of the session has ended before.
-/

namespace Urc

open Transition

namespace Relay

variable {n n' : Relay} {e : RelayEvent} {l : LegId}

theorem opened_move (hm : Move n e n') (h : (n.legs l).pc ≠ .unopened) :
    (n'.legs l).pc ≠ .unopened ∧ (n'.legs l).id = (n.legs l).id ∧
      (n'.legs l).isAgent = (n.legs l).isAgent := by
  cases hm with
  | stutter => exact ⟨h, rfl, rfl⟩
  | create hid => exact ⟨h, rfl, rfl⟩
  | forward hpc => grind [setLeg_legs, push_pc, push_id, push_isAgent]
  | ping hu ha => exact ⟨by simpa using h, by simp, by simp⟩
  | _ => grind [setLeg_legs]

theorem attached_move (hm : Move n e n') (h : (n.legs l).pc.Attached) :
    (n'.legs l).pc.Attached ∧ (n'.legs l).found = (n.legs l).found := by
  cases hm with
  | stutter => exact ⟨h, rfl⟩
  | create hid => exact ⟨h, rfl⟩
  | forward hpc => grind [setLeg_legs, push_pc, push_found, LegPc.Attached]
  | ping hu ha => exact ⟨by simpa using h, by simp⟩
  | _ => grind [setLeg_legs, LegPc.Attached]

theorem attached_cases (hm : Move n e n') (h : (n'.legs l).pc.Attached) :
    (n.legs l).pc.Attached ∨ (n.legs l).pc = .attaching ∧ e = .leg (.step l) ∧
      (n'.legs l).found = (n.hub.sessions.lookup (n.legs l).id).isSome := by
  cases hm with
  | stutter => exact .inl h
  | create hid => exact .inl h
  | forward hpc => grind [setLeg_legs, push_pc, LegPc.Attached]
  | ping hu ha => exact .inl (by simpa using h)
  | _ => grind [setLeg_legs, LegPc.Attached]

theorem legEvent_created (n : Relay) (e : LegEvent) : (n.legEvent e).created = n.created := by
  have hm := step_move n (.leg e)
  rw [show n.step (.leg e) = n.legEvent e from rfl] at hm
  generalize n.legEvent e = n' at hm
  cases hm <;> simp

/--
A leg that found its session stays the sender of its role there, until another leg of the role
attaches: ids are created once, so no later session takes the place of the one it found.
-/
structure Placed (n : Relay) : Prop where
  known : ∀ l, (n.legs l).found = true → (n.legs l).id ∈ n.created
  slot : ∀ l, (n.legs l).found = true → (n.legs l).pc.Attached →
    (∀ l', (n.legs l').id = (n.legs l).id → (n.legs l').isAgent = (n.legs l).isAgent →
      (n.legs l').pc.Attached → l' = l) →
    ∀ x, n.hub.sessions.lookup (n.legs l).id = some x → x.tx (n.legs l).isAgent = some l

theorem placed_new : Placed .new := by
  constructor <;> simp [new, Leg.unopened]

theorem Placed.frame (h : Placed n) (hc : n'.created = n.created)
    (hl : ∀ l, (n'.legs l).id = (n.legs l).id ∧ (n'.legs l).isAgent = (n.legs l).isAgent ∧
      (n'.legs l).found = (n.legs l).found ∧ ((n'.legs l).pc.Attached ↔ (n.legs l).pc.Attached))
    (hh : ∀ id x, n'.hub.sessions.lookup id = some x → n.hub.sessions.lookup id = some x) :
    Placed n' := by
  constructor
  · intro l hf
    obtain ⟨hid, -, hfound, -⟩ := hl l
    rw [hid, hc]
    exact h.known l (hfound ▸ hf)
  · intro l hf ha ho x hx
    obtain ⟨hid, hrole, hfound, hatt⟩ := hl l
    rw [hrole]
    refine h.slot l (hfound ▸ hf) (hatt.mp ha) (fun l' hi hr ha' => ?_) x (hid ▸ hh _ x hx)
    obtain ⟨hid', hrole', -, hatt'⟩ := hl l'
    exact ho l' (by rw [hid', hid, hi]) (by rw [hrole', hrole, hr]) (hatt'.mpr ha')

theorem Placed.attach (h : Placed n) (hi : Ids n) {a : LegId} (hpc : (n.legs a).pc = .attaching) :
    Placed ({ n with hub := n.hub.attach (n.legs a).id (n.legs a).isAgent a }.setLeg a
      { n.legs a with
        pc := .reading, found := (n.hub.sessions.lookup (n.legs a).id).isSome }) := by
  constructor
  · intro l hf
    rw [setLeg_legs] at hf ⊢
    split_ifs at hf ⊢
    · exact ((hi.live _).mp hf).1
    · exact h.known l hf
  · intro l hf ha ho x hx
    rw [setLeg_hub, RelayHub.lookup_attach] at hx
    by_cases hla : l = a
    · subst hla
      simp only [setLeg_legs, if_true] at hx ⊢
      obtain ⟨x₀, -, rfl⟩ := Option.map_eq_some_iff.mp hx
      exact Session.tx_setTx_self ..
    · rw [setLeg_legs, if_neg hla] at hx
      simp only [setLeg_legs, if_neg hla] at hf ha ho ⊢
      have ho' : ∀ l', (n.legs l').id = (n.legs l).id → (n.legs l').isAgent = (n.legs l).isAgent →
          (n.legs l').pc.Attached → l' = l := by
        intro l' hid hrole ha'
        have hne : l' ≠ a := by
          rintro rfl
          simp [hpc, LegPc.Attached] at ha'
        simpa [hne, hid, hrole, ha'] using ho l'
      split_ifs at hx with hid
      · obtain ⟨x₀, hx₀, rfl⟩ := Option.map_eq_some_iff.mp hx
        have hal := ho a
        rw [if_pos rfl] at hal
        have hrole : (n.legs l).isAgent ≠ (n.legs a).isAgent :=
          fun hrole => hla (hal hid.symm hrole.symm trivial).symm
        rw [Session.tx_setTx, if_neg hrole]
        exact h.slot l hf ha ho' x₀ (hid ▸ hx₀)
      · exact h.slot l hf ha ho' x hx

theorem Placed.move (h : Placed n) (hi : Ids n) (hm : Move n e n') : Placed n' := by
  cases hm with
  | stutter => exact h
  | @create id hid =>
    refine ⟨fun l hl => List.mem_cons_of_mem _ (h.known l hl), fun l hl ha ho x hx => ?_⟩
    have hne : (n.legs l).id ≠ id := fun he => hid (he ▸ h.known l hl)
    rw [RelayHub.lookup_createSession, if_neg hne] at hx
    exact h.slot l hl ha ho x hx
  | attach hpc => exact h.attach hi hpc
  | @opened a id r hpc =>
    constructor
    · intro l hf
      rw [setLeg_legs] at hf ⊢
      split_ifs at hf ⊢
      exact h.known l hf
    · intro l hf ha ho x hx
      have hla : l ≠ a := by
        rintro rfl
        simp [setLeg_legs] at hf
      rw [setLeg_hub, setLeg_legs, if_neg hla] at hx
      simp only [setLeg_legs, if_neg hla] at hf ha ho ⊢
      refine h.slot l hf ha (fun l' hid hrole ha' => ?_) x hx
      have hne : l' ≠ a := by
        rintro rfl
        simp [hpc, LegPc.Attached] at ha'
      simpa [hne, hid, hrole, ha'] using ho l'
  | @remove a hpc =>
    refine h.frame rfl (fun l => by grind [setLeg_legs, LegPc.Attached]) fun id x hx => ?_
    rw [setLeg_hub, RelayHub.lookup_removeSession] at hx
    split_ifs at hx
    exact hx
  | @forward a d m hpc =>
    refine h.frame (by simp) (fun l => ?_) (by simp)
    rw [setLeg_legs]
    split_ifs with hla
    · simp [hla, hpc, LegPc.Attached]
    · simp
  | ping hu ha => exact h.frame (by simp) (fun l => by simp) (by simp)
  | _ =>
    exact h.frame (by simp) (fun l => by grind [setLeg_legs, LegPc.Attached]) (by simp)

end Relay

/-- The session of a task that has not called `create_session` for it yet. -/
def ClientPc.pending : ClientPc → Option Uuid
  | .gotAgent _ _ id | .gotTx _ id _ | .announced _ id => some id
  | _ => none

theorem dispatch_tunnelReady (id : Uuid) : dispatch (tunnelReady id) = some (id, .vnc) := rfl

namespace Server

variable {s s' : Server} {e : Event} {id : Uuid}

/-- The session was created, or its client task is about to create it. -/
def Known (s : Server) (id : Uuid) : Prop :=
  id ∈ s.state.relay.created ∨ ∃ k a, (s.clients k).pc = .announced a id

/-- Ids of sessions are fresh: no two tasks hold the same, and none that was created already. -/
structure Fresh (s : Server) : Prop where
  decided : ∀ k id, (s.clients k).pc.pending = some id → id ∈ s.decided.map (·.1)
  created : ∀ id ∈ s.state.relay.created, id ∈ s.decided.map (·.1)
  uncreated : ∀ k id, (s.clients k).pc.pending = some id → id ∉ s.state.relay.created
  unique : ∀ k k' id, (s.clients k).pc.pending = some id → (s.clients k').pc.pending = some id →
    k = k'

/-- Agents are sent known sessions only, and they open legs for no others. -/
structure Traced (s : Server) : Prop where
  sent : ∀ c m id t, m ∈ (s.agents c).control → dispatch m = some (id, t) → s.Known id
  dialled : ∀ l, s.dialled l = true → s.Known (s.state.relay.legs l).id ∧
    (s.state.relay.legs l).isAgent = true ∧ (s.state.relay.legs l).pc ≠ .unopened

/--
Every attached leg that an announcement opened has found its session; it stays the agent sender
of that session, to which the frames of the client go, until another agent leg attaches; and the
session that it removes at its end is the one it found.
-/
structure Meets (s : Server) : Prop where
  found : ∀ l, s.dialled l = true → (s.state.relay.legs l).pc.Attached →
    (s.state.relay.legs l).found = true
  reached : ∀ l, s.dialled l = true → (s.state.relay.legs l).pc.Attached →
    (∀ l', (s.state.relay.legs l').id = (s.state.relay.legs l).id →
      (s.state.relay.legs l').isAgent = true → (s.state.relay.legs l').pc.Attached → l' = l) →
    ∀ x, s.state.relay.hub.sessions.lookup (s.state.relay.legs l).id = some x →
      s.state.relay.hub.peerTx (s.state.relay.legs l).id false = some (some l)
  spared : ∀ l, s.dialled l = true → (s.state.relay.legs l).pc = .ending →
    (s.state.relay.hub.sessions.lookup (s.state.relay.legs l).id).isSome →
      (s.state.relay.legs l).found = true

/--
When a leg that an announcement opened attaches, the client task of its session has got past
`create_session`, and no leg has removed the session since.
-/
def AttachesAfterCreate (s : Server) : Event → Prop
  | .leg (.step l) => s.dialled l = true → (s.state.relay.legs l).pc = .attaching →
      (∀ k a, (s.clients k).pc ≠ .announced a (s.state.relay.legs l).id) ∧
        (s.state.relay.legs l).id ∉ s.state.relay.removed
  | _ => True

/-! ### Ids and announcements -/

theorem fresh_new (secret : String) : Fresh (.new secret) := by
  constructor <;> simp [new, AppState.new, Relay.new, ClientPc.pending]

theorem Fresh.frame (h : Fresh s)
    (hp : ∀ k id, (s'.clients k).pc.pending = some id → (s.clients k).pc.pending = some id)
    (hd : s'.decided = s.decided) (hc : s'.state.relay.created = s.state.relay.created) :
    Fresh s' where
  decided k id hk := hd ▸ h.decided k id (hp k id hk)
  created id hid := hd ▸ h.created id (hc ▸ hid)
  uncreated k id hk := hc ▸ h.uncreated k id (hp k id hk)
  unique k k' id hk hk' := h.unique k k' id (hp k id hk) (hp k' id hk')

theorem Fresh.decide (h : Fresh s) {c : ConnId} {d : Uuid × AgentRecord}
    (hid : d.1 ∉ s.decided.map (·.1)) (hd : s'.decided = s.decided ++ [d])
    (hp : ∀ k i, (s'.clients k).pc.pending = some i →
      k = c ∧ i = d.1 ∨ (s.clients k).pc.pending = some i)
    (hc : s'.state.relay.created = s.state.relay.created) : Fresh s' := by
  refine ⟨fun k i hk => ?_, fun i hi => ?_, fun k i hk => ?_, fun k k' i hk hk' => ?_⟩
  · rw [hd, List.map_append, List.mem_append]
    rcases hp k i hk with ⟨-, rfl⟩ | hk
    · exact .inr (by simp)
    · exact .inl (h.decided k i hk)
  · rw [hd, List.map_append, List.mem_append]
    exact .inl (h.created i (hc ▸ hi))
  · rw [hc]
    rcases hp k i hk with ⟨-, rfl⟩ | hk
    · exact fun hcreated => hid (h.created _ hcreated)
    · exact h.uncreated k i hk
  · rcases hp k i hk with ⟨hkc, hi⟩ | h₁ <;> rcases hp k' i hk' with ⟨hkc', hi'⟩ | h₂
    · exact hkc.trans hkc'.symm
    · exact absurd (hi ▸ h.decided k' i h₂) hid
    · exact absurd (hi' ▸ h.decided k i h₁) hid
    · exact h.unique k k' i h₁ h₂

theorem Fresh.create (h : Fresh s) {c : ConnId} (hpend : (s.clients c).pc.pending = some id)
    (hp : ∀ k i, (s'.clients k).pc.pending = some i →
      k ≠ c ∧ (s.clients k).pc.pending = some i)
    (hd : s'.decided = s.decided)
    (hc : s'.state.relay.created = id :: s.state.relay.created) : Fresh s' := by
  refine ⟨fun k i hk => hd ▸ h.decided k i (hp k i hk).2, fun i hi => ?_, fun k i hk => ?_,
    fun k k' i hk hk' => h.unique k k' i (hp k i hk).2 (hp k' i hk').2⟩
  · rw [hd]
    rw [hc, List.mem_cons] at hi
    rcases hi with rfl | hi
    · exact h.decided c i hpend
    · exact h.created i hi
  · obtain ⟨hkc, hk⟩ := hp k i hk
    rw [hc, List.mem_cons, not_or]
    refine ⟨?_, h.uncreated k i hk⟩
    rintro rfl
    exact hkc (h.unique k c i hk hpend)

theorem created_createSession {n : Relay} (hid : id ∉ n.created) :
    (n.createSession id).created = id :: n.created := by
  simp [Relay.createSession, hid]

theorem pending_setClient {c k : ConnId} {x : ClientConn}
    (hx : ∀ id, x.pc.pending = some id → (s.clients c).pc.pending = some id)
    (hk : ((s.setClient c x).clients k).pc.pending = some id) :
    (s.clients k).pc.pending = some id := by
  rw [setClient_clients] at hk
  split_ifs at hk with hkc
  · exact hkc ▸ hx id hk
  · exact hk

theorem Fresh.setClient (h : Fresh s) {c : ConnId} {x : ClientConn}
    (hx : ∀ id, x.pc.pending = some id → (s.clients c).pc.pending = some id) :
    Fresh (s.setClient c x) :=
  h.frame (fun _ _ => pending_setClient hx) rfl rfl

theorem Fresh.move (h : Fresh s) (hm : Move s e s') : Fresh s' := by
  cases hm with
  | @connect c hostId token id agent hpc ht ha hid =>
    have hfresh : id ∉ s.decided.map (·.1) := by simpa using hid
    refine h.decide (c := c) (d := (id, agent)) hfresh rfl (fun k i hk => ?_) rfl
    rw [setClient_clients] at hk
    split_ifs at hk with hkc
    · exact .inl ⟨hkc, (Option.some_inj.mp hk).symm⟩
    · exact .inr hk
  | @create c agent id hpc =>
    have hpend : (s.clients c).pc.pending = some id := by rw [hpc]; rfl
    refine h.create hpend (fun k i hk => ?_) rfl
      (created_createSession (h.uncreated c id hpend))
    rw [setClient_clients] at hk
    split_ifs at hk with hkc
    · simp [ClientPc.pending] at hk
    · exact ⟨hkc, hk⟩
  | dial hm hd hpc => exact h.frame (fun _ _ hk => hk) rfl (Relay.legEvent_created _ _)
  | leg => exact h.frame (fun _ _ hk => hk) rfl (Relay.legEvent_created _ _)
  | clientOpen hpc => exact h.setClient (by simp [ClientPc.pending])
  | refuse hpc ht => exact h.setClient fun _ hk => hk
  | clientLeave hpc he => exact h.setClient (by simp [ClientPc.pending])
  | lookupTx hpc => exact h.setClient (by simp [ClientPc.pending, hpc])
  | announce hpc =>
    exact h.frame (fun _ _ => pending_setClient (by simp [ClientPc.pending, hpc])) rfl rfl
  | skip hpc => exact h.setClient (by simp [ClientPc.pending, hpc])
  | answer hpc => exact h.setClient (by simp [ClientPc.pending])
  | _ => exact h.frame (fun _ _ hk => hk) rfl (by simp)

theorem Known.mono (h : s.Known id) (hm : Move s e s') : s'.Known id := by
  have hset : ∀ {c : ConnId} {x : ClientConn}, s'.state.relay.created = s.state.relay.created →
      s'.clients = (s.setClient c x).clients →
      (∀ a id, (s.clients c).pc ≠ .announced a id) → s'.Known id := by
    intro c x hc hk hx
    rcases h with h | ⟨k, a, hpc⟩
    · exact .inl (hc ▸ h)
    · refine .inr ⟨k, a, ?_⟩
      rw [hk, setClient_clients, if_neg (by rintro rfl; exact hx a id hpc)]
      exact hpc
  cases hm with
  | @create c agent id' hpc =>
    have hmem : ∀ i, i = id' ∨ i ∈ s.state.relay.created →
        i ∈ (s.state.relay.createSession id').created := by
      intro i hi
      unfold Relay.createSession
      split_ifs with hid
      · rcases hi with rfl | hi
        · exact hid
        · exact hi
      · exact List.mem_cons.mpr hi
    rcases h with h | ⟨k, a, hk⟩
    · exact .inl (hmem id (.inr h))
    · by_cases hkc : k = c
      · subst hkc
        rw [hpc, ClientPc.announced.injEq] at hk
        exact .inl (hmem id (.inl hk.2.symm))
      · refine .inr ⟨k, a, ?_⟩
        dsimp only
        rw [setClient_clients, if_neg hkc]
        exact hk
  | dial hm hd hpc => exact h.imp (fun hc => (Relay.legEvent_created _ _).symm ▸ hc) fun hk => hk
  | leg => exact h.imp (fun hc => (Relay.legEvent_created _ _).symm ▸ hc) fun hk => hk
  | clientOpen hpc => exact hset rfl rfl (by simp [hpc])
  | refuse hpc ht => exact hset rfl rfl (by simp [hpc])
  | connect hpc ht ha hid => exact hset rfl rfl (by simp [hpc])
  | clientLeave hpc he => exact hset rfl rfl (by simp [hpc])
  | lookupTx hpc => exact hset rfl rfl (by simp [hpc])
  | announce hpc => exact hset rfl rfl (by simp [hpc])
  | skip hpc => exact hset rfl rfl (by simp [hpc])
  | answer hpc => exact hset rfl rfl (by simp [hpc])
  | touch hpc => exact h.imp (fun hc => by simpa using hc) fun hk => hk
  | _ => exact h

/-- Agents only read `Registered` and `TunnelReady` from their control channels. -/
theorem Traced.sent_move (h : Traced s) (hm : Move s e s') :
    ∀ c m id t, m ∈ (s'.agents c).control → dispatch m = some (id, t) → s'.Known id := by
  intro d m id t hmem hd
  have hold : m ∈ (s.agents d).control → s'.Known id := fun hmem =>
    (h.sent d m id t hmem hd).mono hm
  have hset : ∀ {c : ConnId} {x : AgentConn}, s'.agents = (s.setAgent c x).agents →
      (m ∈ x.control → m ∈ (s.agents c).control ∨ s'.Known id) → s'.Known id := by
    intro c x hs hx
    rw [hs, setAgent_agents] at hmem
    split_ifs at hmem with hdc
    · exact (hx hmem).elim (hdc ▸ hold) fun hk => hk
    · exact hold hmem
  cases hm with
  | agentOpen hpc => exact hset rfl (by simp)
  | register hpc ht => exact hset rfl .inl
  | reject hpc ht => exact hset rfl .inl
  | leave hpc he => exact hset rfl .inl
  | @reply c hostId hpc =>
    refine hset rfl fun hmem => (List.mem_append.mp hmem).imp_right fun hmem => ?_
    split_ifs at hmem
    · obtain rfl := List.mem_singleton.mp hmem
      cases hd
    · cases hmem
  | returnEmpty hpc hid => exact hset rfl .inl
  | unregister hpc hid => exact hset rfl .inl
  | agentCloseRx hpc => exact hset rfl .inl
  | @announce c agent id' t' hpc =>
    refine hset rfl fun hmem => (List.mem_append.mp hmem).imp_right fun hmem => ?_
    split_ifs at hmem
    · obtain rfl := List.mem_singleton.mp hmem
      rw [dispatch_tunnelReady, Option.some_inj, Prod.mk.injEq] at hd
      refine .inr ⟨c, agent, ?_⟩
      rw [setClient_clients, if_pos rfl, hd.1]
    · cases hmem
  | _ => exact hold hmem

/-- The legs move by an event of their own, by the opening of a dialled leg, or not at all. -/
theorem legs_cases (hm : Move s e s') :
    (s'.state.relay.legs = s.state.relay.legs ∧ s'.dialled = s.dialled) ∨
    (∃ e₀, e = .leg e₀ ∧ s'.state.relay = s.state.relay.legEvent e₀ ∧ s'.dialled = s.dialled) ∨
    ∃ c m id t l, m ∈ (s.agents c).control ∧ dispatch m = some (id, t) ∧
      (s.state.relay.legs l).pc = .unopened ∧ s'.dialled = Function.update s.dialled l true ∧
      s'.state.relay = s.state.relay.setLeg l ⟨id, true, .attaching, true, false, [], [], []⟩ := by
  cases hm with
  | @dial c i l m id t hm hd hpc =>
    refine .inr (.inr ⟨c, m, id, t, l, List.mem_of_getElem? hm, hd, hpc, rfl, ?_⟩)
    simp [Relay.legEvent, hpc]
  | @leg e => exact .inr (.inl ⟨e, rfl, rfl, rfl⟩)
  | @create c agent id hpc =>
    refine .inl ⟨?_, rfl⟩
    dsimp only
    unfold Relay.createSession
    split_ifs <;> rfl
  | touch hpc => exact .inl ⟨by simp, rfl⟩
  | _ => exact .inl ⟨rfl, rfl⟩

theorem Traced.dialled_move (h : Traced s) (hm : Move s e s') (l : LegId)
    (hl : s'.dialled l = true) : s'.Known (s'.state.relay.legs l).id ∧
      (s'.state.relay.legs l).isAgent = true ∧ (s'.state.relay.legs l).pc ≠ .unopened := by
  have hsame : s'.state.relay.legs l = s.state.relay.legs l → s.dialled l = true →
      s'.Known (s'.state.relay.legs l).id ∧ (s'.state.relay.legs l).isAgent = true ∧
        (s'.state.relay.legs l).pc ≠ .unopened := by
    intro he hl
    rw [he]
    exact (h.dialled l hl).imp_left fun hk => hk.mono hm
  rcases legs_cases hm with ⟨hlegs, hd⟩ | ⟨e₀, -, hrelay, hd⟩ |
    ⟨c, m, id, t, a, hmem, hdis, hpc, hd, hrelay⟩
  · exact hsame (by rw [hlegs]) (hd ▸ hl)
  · obtain ⟨hk, hr, hpc⟩ := h.dialled l (hd ▸ hl)
    obtain ⟨hpc', hid', hr'⟩ := Relay.opened_move (Relay.step_move s.state.relay (.leg e₀)) hpc
    rw [hrelay]
    exact ⟨hid' ▸ hk.mono hm, hr'.trans hr, hpc'⟩
  · rw [hd, Function.update_apply] at hl
    have hlegs : s'.state.relay.legs l = _ := congrFun (congrArg Relay.legs hrelay) l
    rw [Relay.setLeg_legs] at hlegs
    split_ifs at hl hlegs with hla
    · rw [hlegs]
      exact ⟨(h.sent c m id t hmem hdis).mono hm, rfl, by simp⟩
    · exact hsame hlegs hl

theorem traced_new (secret : String) : Traced (.new secret) := by
  constructor <;> simp [new]

theorem Traced.move (h : Traced s) (hm : Move s e s') : Traced s' :=
  ⟨h.sent_move hm, h.dialled_move hm⟩

/-- The session of a leg that an announcement opened is in the map exactly from its creation
to its removal. -/
theorem session_isSome_iff (hi : s.state.relay.Ids) (hf : Fresh s) {id : Uuid} (hk : s.Known id) :
    (s.state.relay.hub.sessions.lookup id).isSome ↔
      (∀ k a, (s.clients k).pc ≠ .announced a id) ∧ id ∉ s.state.relay.removed := by
  rw [hi.live id]
  refine and_congr_left fun _ => ⟨fun hc k a hpc => ?_, fun hn => ?_⟩
  · exact hf.uncreated k id (by rw [hpc]; rfl) hc
  · rcases hk with hc | ⟨k, a, hpc⟩
    · exact hc
    · exact absurd hpc (hn k a)

/-- What every reachable state satisfies, and what it takes for `Meets`. -/
structure Placed (s : Server) : Prop where
  sound : s.state.relay.Sound
  placed : s.state.relay.Placed
  fresh : Fresh s
  traced : Traced s
  found : ∀ l, s.dialled l = true → (s.state.relay.legs l).pc.Attached →
    (s.state.relay.legs l).found = true

theorem Placed.meets (h : Placed s) : Meets s where
  found := h.found
  reached l hl ha ho x hx := by
    have hr := (h.traced.dialled l hl).2.1
    have hx' := h.placed.slot l (h.found l hl ha) ha
      (fun l' hid hr' => ho l' hid (hr'.trans hr)) x hx
    rw [hr] at hx'
    rw [RelayHub.peerTx, hx, Option.map_some]
    exact congrArg some hx'
  spared l hl hpc _ := h.found l hl (by rw [hpc]; trivial)

theorem Placed.found_move (h : Placed s) (hm : Move s e s') (hg : AttachesAfterCreate s e)
    (l : LegId) (hl : s'.dialled l = true) (ha : (s'.state.relay.legs l).pc.Attached) :
    (s'.state.relay.legs l).found = true := by
  rcases legs_cases hm with ⟨hlegs, hd⟩ | ⟨e₀, rfl, hrelay, hd⟩ |
    ⟨c, m, id, t, a, -, -, -, hd, hrelay⟩
  · rw [hlegs] at ha ⊢
    exact h.found l (hd ▸ hl) ha
  · rw [hd] at hl
    have hn : s.state.relay.Move (.leg e₀) s'.state.relay :=
      hrelay ▸ Relay.step_move s.state.relay (.leg e₀)
    rcases Relay.attached_cases hn ha with hatt | ⟨hpc, he, hfound⟩
    · rw [(Relay.attached_move hn hatt).2]
      exact h.found l hl hatt
    · obtain rfl : e₀ = .step l := by simpa using he
      rw [hfound, session_isSome_iff h.sound.ids h.fresh (h.traced.dialled l hl).1]
      exact hg hl hpc
  · have hlegs : s'.state.relay.legs l = _ := congrFun (congrArg Relay.legs hrelay) l
    rw [Relay.setLeg_legs] at hlegs
    rw [hd, Function.update_apply] at hl
    rw [hlegs] at ha ⊢
    split_ifs at hl ha ⊢
    · cases ha
    · exact h.found l hl ha

theorem Placed.step (h : Placed s) (hg : AttachesAfterCreate s e) : Placed (s.step e) := by
  have hm := step_move s e
  obtain ⟨es, hes⟩ := relay_step s e
  have hkeep : ∀ n e, (Relay.Sound n ∧ Relay.Placed n) → Relay.Sound (n.step e) ∧
      Relay.Placed (n.step e) :=
    fun n e h => ⟨h.1.step e, h.2.move h.1.ids (Relay.step_move n e)⟩
  have hrelay : (s.step e).state.relay.Sound ∧ (s.step e).state.relay.Placed := by
    rw [hes]
    exact run_invariant hkeep ⟨h.sound, h.placed⟩ es
  exact ⟨hrelay.1, hrelay.2, h.fresh.move hm, h.traced.move hm, h.found_move hm hg⟩

/-- A step after which every dialled leg has found its session met the condition. -/
theorem Placed.attachesAfterCreate (h : Placed s) (hs : Meets (s.step e)) :
    AttachesAfterCreate s e := by
  unfold AttachesAfterCreate
  split
  case h_2 => trivial
  case h_1 l =>
    intro hl hpc
    have hleg : (s.state.relay.legStep l).legs l = { s.state.relay.legs l with
        pc := .reading
        found := (s.state.relay.hub.sessions.lookup (s.state.relay.legs l).id).isSome } := by
      simp [Relay.legStep, hpc, Relay.setLeg_legs]
    have hfound : ((s.state.relay.legStep l).legs l).found = true := by
      refine hs.found l hl ?_
      change ((s.state.relay.legStep l).legs l).pc.Attached
      rw [hleg]
      trivial
    rw [hleg] at hfound
    exact (session_isSome_iff h.sound.ids h.fresh (h.traced.dialled l hl).1).mp hfound

theorem placed_new (secret : String) : Placed (.new secret) :=
  ⟨Relay.sound_new, Relay.placed_new, fresh_new secret, traced_new secret, by simp [new]⟩

/--
Every agent leg that an announcement opened meets its session exactly when each of them attaches
after the creation of the session and before its removal.
-/
theorem agentLeg_meets_iff (secret : String) (es : List Event) :
    Always step Meets (.new secret) es ↔ Steps step AttachesAfterCreate (.new secret) es :=
  always_iff_steps_of_all (fun _ _ h hg => h.step hg) (fun _ h => h.meets)
    (fun _ _ h hs => h.attachesAfterCreate hs) (placed_new secret)

/-- The agent reacts to the announcement before the client task creates the session. -/
def earlyAttach : List Event :=
  dialDesk ++ [.clientStep 0, .clientStep 0, .dial 0 1 1, .leg (.step 1)]

theorem agentLeg_misses : ¬ ∀ secret es, Always step Meets (.new secret) es := by
  intro h
  have hfound := (h "t" earlyAttach _ List.prefix_rfl).found 1 (by decide) (by trivial)
  exact absurd hfound (by decide)

end Server

end Urc
