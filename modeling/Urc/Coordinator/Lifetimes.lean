import Urc.Coordinator.Rendezvous

/-! # How long relay sessions live

A client task creates a session, its legs come and go in tasks of their own, and the first leg
that ends takes the session out of the map. Nothing else does: a `Disconnect` is read and
dropped, and the client task that ends leaves the map alone. So a session is left behind exactly
when its client lets go of it before any leg has used it.
-/

namespace Urc

open Transition

def LegPc.Running : LegPc → Prop
  | .unopened | .done => False
  | _ => True

namespace Relay

def Attended (n : Relay) (id : Uuid) : Prop := ∃ l, (n.legs l).id = id ∧ (n.legs l).pc.Running

/-- A tunnel leg of the session is open, or one has ended and taken the session with it. -/
def Used (n : Relay) (id : Uuid) : Prop := n.Attended id ∨ id ∈ n.removed

variable {n n' : Relay} {e : RelayEvent} {l : LegId} {id : Uuid}

theorem created_move (hm : Move n e n') : n.created ⊆ n'.created := by
  cases hm with
  | create hid => exact List.subset_cons_self _ _
  | _ => simp

theorem removed_move (hm : Move n e n') : n.removed ⊆ n'.removed := by
  cases hm with
  | remove hpc =>
    rw [setLeg_removed]
    split_ifs
    · exact List.subset_cons_self _ _
    · exact List.Subset.refl _
  | _ => simp

theorem running_move (hm : Move n e n') (h : (n.legs l).pc.Running) :
    (n'.legs l).id = (n.legs l).id ∧ ((n'.legs l).pc.Running ∨
      ((n.hub.sessions.lookup (n.legs l).id).isSome → (n.legs l).id ∈ n'.removed)) := by
  cases hm with
  | stutter => exact ⟨rfl, .inl h⟩
  | create hid => exact ⟨rfl, .inl h⟩
  | forward hpc => grind [setLeg_legs, push_pc, push_id, LegPc.Running]
  | ping hu ha => exact ⟨by simp, .inl (by simpa using h)⟩
  | @remove a hpc =>
    by_cases ha : l = a
    · subst ha
      refine ⟨by simp [setLeg_legs], .inr fun hs => ?_⟩
      rw [setLeg_removed, if_pos hs]
      exact List.mem_cons_self
    · simp only [setLeg_legs, if_neg ha, true_and]
      exact .inl h
  | _ => grind [setLeg_legs, LegPc.Running]

theorem Used.move (hi : Ids n) (hc : id ∈ n.created) (h : n.Used id) (hm : Move n e n') :
    n'.Used id := by
  by_cases hr : id ∈ n.removed
  · exact .inr (removed_move hm hr)
  · obtain ⟨l, rfl, hrun⟩ := h.resolve_right hr
    obtain ⟨hid, hrun | hgone⟩ := running_move hm hrun
    · exact .inl ⟨l, hid, hrun⟩
    · exact .inr (hgone ((hi.live _).mpr ⟨hc, hr⟩))

structure InUse (n : Relay) (id : Uuid) : Prop where
  ids : Ids n
  created : id ∈ n.created
  used : n.Used id

theorem InUse.run (h : InUse n id) (es : List RelayEvent) :
    InUse (Transition.run Relay.step n es) id := by
  have hstep : ∀ n e, InUse n id → InUse (n.step e) id := fun n e h =>
    have hm := step_move n e
    ⟨h.ids.move hm, created_move hm h.created, h.used.move h.ids h.created hm⟩
  exact run_invariant hstep h es

end Relay

namespace Server

/-- The session that the event creates, with the client that it is for. -/
def creating (s : Server) : Event → Option (Uuid × ConnId)
  | .clientStep c =>
    match (s.clients c).pc with
    | .announced _ id => some (id, c)
    | _ => none
  | _ => none

def disconnecting (s : Server) : Event → Option (Uuid × ConnId)
  | .clientFrame c (.text t) _ =>
    match (s.clients c).pc, (parseWsMessage t : Option ClientMessage) with
    | .reading, some (.disconnect id) => some (id, c)
    | _, _ => none
  | _ => none

/-- The client whose control connection ends by the event; any frame but a text ends it. -/
def closing (s : Server) : Event → Option ConnId
  | .clientEnd c => if (s.clients c).pc = .reading then some c else none
  | .clientFrame _ (.text _) _ => none
  | .clientFrame c _ _ => if (s.clients c).pc = .reading then some c else none
  | _ => none

structure AllClosed (s : Server) : Prop where
  agents : ∀ c, (s.agents c).pc = .unopened ∨ (s.agents c).pc = .returned
  clients : ∀ c, (s.clients c).pc = .unopened ∨ (s.clients c).pc = .returned
  legs : ∀ l, ¬ (s.state.relay.legs l).pc.Running

variable {s : Server} {e : Event} {c : ConnId} {id : Uuid}

/-- The relay gets a session only from the client task that creates it. -/
theorem created_step (h : id ∈ (s.step e).state.relay.created) :
    id ∈ s.state.relay.created ∨ ∃ c, s.creating e = some (id, c) := by
  have hm := step_move s e
  generalize s.step e = s' at hm h
  cases hm with
  | @create c agent id' hpc =>
    simp only [Relay.createSession] at h
    split_ifs at h with hid
    · exact .inl h
    · rcases List.mem_cons.mp h with rfl | h
      · exact .inr ⟨c, by simp [creating, hpc]⟩
      · exact .inl h
  | dial hm hd hpc => exact .inl (by simpa [Relay.legEvent_created] using h)
  | leg => exact .inl (by simpa [Relay.legEvent_created] using h)
  | _ => exact .inl (by simpa [refuse] using h)

theorem creating_eq_some (h : s.creating e = some (id, c)) :
    e = .clientStep c ∧ ∃ a, (s.clients c).pc = .announced a id := by
  cases e with
  | clientStep k =>
    simp only [creating] at h
    split at h
    · rename_i a id' hpc
      cases h
      exact ⟨rfl, a, hpc⟩
    · cases h
  | _ => cases h

theorem creating_created (hf : Fresh s) (h : s.creating e = some (id, c)) :
    id ∉ s.state.relay.created ∧ id ∈ (s.step e).state.relay.created ∧
      ∃ a, ((s.step e).clients c).pc = .created a id := by
  obtain ⟨rfl, a, hpc⟩ := creating_eq_some h
  have hid := hf.uncreated c id (by rw [hpc]; rfl)
  refine ⟨hid, ?_, a, ?_⟩
  · simp [step, clientStep, hpc, created_createSession hid]
  · simp [step, clientStep, hpc, setClient_clients]

theorem client_opened_step (h : (s.clients c).pc ≠ .unopened) :
    ((s.step e).clients c).pc ≠ .unopened := by
  have hm := step_move s e
  generalize s.step e = s' at hm
  have hset : ∀ {d : ConnId} {k : ClientConn}, s'.clients = (s.setClient d k).clients →
      ((s.clients d).pc ≠ .unopened → k.pc ≠ .unopened) → (s'.clients c).pc ≠ .unopened :=
    fun hs hk => of_setClient (P := (·.pc ≠ .unopened)) hs h fun hd => hk (hd ▸ h)
  cases hm with
  | clientOpen hpc => exact hset rfl (by simp)
  | refuse hpc ht => exact hset rfl id
  | connect hpc ht ha hid => exact hset rfl (by simp)
  | clientLeave hpc he => exact hset rfl (by simp)
  | lookupTx hpc => exact hset rfl (by simp)
  | announce hpc => exact hset rfl (by simp)
  | skip hpc => exact hset rfl (by simp)
  | create hpc => exact hset rfl (by simp)
  | answer hpc => exact hset rfl (by simp)
  | _ => exact h

theorem setClient_returned {d : ConnId} {k : ClientConn}
    (h : ((s.setClient d k).clients c).pc = .returned) :
    d = c ∧ k.pc = .returned ∨ (s.clients c).pc = .returned := by
  rw [setClient_clients] at h
  split_ifs at h with hc
  · exact .inl ⟨hc.symm, h⟩
  · exact .inr h

theorem onClientFrame_text {d : ConnId} {t : WsText} {i : Uuid} (hd : (s.clients d).pc = .reading)
    (h : ((s.onClientFrame d (.text t) i).clients c).pc = .returned) :
    (s.clients c).pc = .returned := by
  have hset : ∀ {k : ClientConn}, k.pc ≠ .returned →
      ((s.setClient d k).clients c).pc = .returned → (s.clients c).pc = .returned :=
    fun hk h => (setClient_returned h).resolve_left fun hc => hk hc.2
  have hrefuse : ∀ reason, ((s.refuse d reason).clients c).pc = .returned →
      (s.clients c).pc = .returned := fun reason => hset (by simp [hd])
  simp only [onClientFrame] at h
  split at h
  · rename_i hostId token _
    by_cases ht : (!s.state.verifyToken token) = true
    · rw [if_pos ht] at h
      exact hrefuse _ h
    · rw [if_neg ht] at h
      cases ha : s.state.getAgent hostId with
      | none =>
        rw [ha] at h
        exact hrefuse _ h
      | some agent =>
        rw [ha] at h
        dsimp only at h
        split_ifs at h
        · exact h
        · exact hset (by simp) h
  · exact h

theorem returned_step (h : ((s.step e).clients c).pc = .returned) :
    (s.clients c).pc = .returned ∨ s.closing e = some c := by
  have hm := step_move s e
  generalize hs : s.step e = s' at hm h
  have hgoto : ∀ {d : ConnId} {k : ClientConn}, s'.clients = (s.setClient d k).clients →
      k.pc ≠ .returned → (s.clients c).pc = .returned ∨ s.closing e = some c := by
    intro d k hk hpc
    rw [hk] at h
    exact .inl ((setClient_returned h).resolve_left fun hc => hpc hc.2)
  cases hm with
  | @clientLeave d e hpc he =>
    rcases he with rfl | ⟨m, i, rfl⟩
    · rcases setClient_returned h with ⟨rfl, -⟩ | h
      · exact .inr (by simp [closing, hpc])
      · exact .inl h
    · cases m with
      | text t =>
        rw [← hs] at h
        simp only [step, hpc, if_true] at h
        exact .inl (onClientFrame_text hpc h)
      | _ =>
        rcases setClient_returned h with ⟨rfl, -⟩ | h
        · exact .inr (by simp [closing, hpc])
        · exact .inl h
  | clientOpen hpc => exact hgoto rfl (by simp)
  | refuse hpc ht => exact hgoto rfl (by simp [hpc])
  | connect hpc ht ha hid => exact hgoto rfl (by simp)
  | lookupTx hpc => exact hgoto rfl (by simp)
  | announce hpc => exact hgoto rfl (by simp)
  | skip hpc => exact hgoto rfl (by simp)
  | create hpc => exact hgoto rfl (by simp)
  | answer hpc => exact hgoto rfl (by simp)
  | _ => exact .inl h

/-- The relay does not see that a client lets go. -/
theorem relay_disconnecting (h : s.disconnecting e = some (id, c)) :
    (s.step e).state.relay = s.state.relay := by
  unfold disconnecting at h
  split at h
  · split at h
    · rename_i d t i pc k hpc hk
      simp only [step, hpc, if_true, onClientFrame]
      rw [hk]
    · cases h
  · cases h

theorem closing_eq_some (h : s.closing e = some c) :
    s.step e = s.setClient c { s.clients c with pc := .returned } := by
  unfold closing at h
  split at h
  · split_ifs at h with hpc
    cases h
    simp [step, hpc]
  · cases h
  · rename_i d m i hm
    split_ifs at h with hpc
    cases h
    simp only [step, hpc, if_true]
    cases m with
    | text t => exact absurd rfl (hm t)
    | _ => rfl
  · cases h

end Server

/-- The coordinator with two histories: the client that each session was created for, and the
sessions that this client has disconnected since. -/
structure Owned where
  server : Server
  creator : Uuid → Option ConnId
  disconnected : List Uuid

namespace Owned

def new (secret : String) : Owned := ⟨.new secret, fun _ => none, []⟩

def step (t : Owned) (e : Event) : Owned where
  server := t.server.step e
  creator :=
    match t.server.creating e with
    | some (id, c) => Function.update t.creator id (some c)
    | none => t.creator
  disconnected :=
    match t.server.disconnecting e with
    | some (id, c) => if t.creator id = some c then id :: t.disconnected else t.disconnected
    | none => t.disconnected

/-- The histories do not disturb the coordinator. -/
theorem run_server (t : Owned) (es : List Event) :
    (run step t es).server = run Server.step t.server es := by
  induction es generalizing t with
  | nil => rfl
  | cons e es ih => exact ih (t.step e)

def LetGo (t : Owned) (id : Uuid) : Prop :=
  id ∈ t.disconnected ∨ ∃ c, t.creator id = some c ∧ (t.server.clients c).pc = .returned

/-- A session that its creator has let go of, and that no leg uses, is not in the map; once all
sockets are closed the map is empty. -/
structure NoneOutlives (t : Owned) : Prop where
  gone : ∀ id, t.LetGo id → ¬ t.server.state.relay.Attended id →
    t.server.state.relay.hub.sessions.lookup id = none
  empty : t.server.AllClosed → t.server.state.relay.hub.sessions = ∅

def LetsGo (t : Owned) (e : Event) (id : Uuid) : Prop :=
  ∃ c, t.creator id = some c ∧
    (t.server.disconnecting e = some (id, c) ∨ t.server.closing e = some c)

/-- A creator lets go of sessions only that a leg is using, or has used. -/
def LetsGoUsed (t : Owned) (e : Event) : Prop :=
  ∀ id, t.LetsGo e id → t.server.state.relay.Used id

/-- What every state satisfies in which each session let go of has been used. -/
structure Tended (t : Owned) : Prop where
  ids : t.server.state.relay.Ids
  fresh : t.server.Fresh
  made : ∀ id ∈ t.server.state.relay.created,
    ∃ c, t.creator id = some c ∧ (t.server.clients c).pc ≠ .unopened
  known : ∀ id c, t.creator id = some c → id ∈ t.server.state.relay.created
  owned : ∀ id ∈ t.disconnected, (t.creator id).isSome = true
  used : ∀ id, t.LetGo id → t.server.state.relay.Used id

variable {t : Owned} {e : Event} {id : Uuid} {c : ConnId}

theorem tended_new (secret : String) : Tended (new secret) := by
  refine ⟨Relay.ids_new, Server.fresh_new secret, fun id hid => ?_, fun id c hc => ?_,
    fun id hid => ?_, fun id h => ?_⟩
  · cases hid
  · cases hc
  · cases hid
  · rcases h with h | ⟨c, hc, -⟩
    · cases h
    · cases hc

theorem Tended.created (h : Tended t) (hlet : t.LetGo id ∨ t.LetsGo e id) :
    id ∈ t.server.state.relay.created := by
  rcases hlet with (hd | ⟨c, hc, -⟩) | ⟨c, hc, -⟩
  · obtain ⟨c, hc⟩ := Option.isSome_iff_exists.mp (h.owned id hd)
    exact h.known id c hc
  · exact h.known id c hc
  · exact h.known id c hc

theorem Tended.noneOutlives (h : Tended t) : NoneOutlives t := by
  have hgone : ∀ id, t.LetGo id → ¬ t.server.state.relay.Attended id →
      t.server.state.relay.hub.sessions.lookup id = none := fun id hlet hatt =>
    h.ids.lookup_removed ((h.used id hlet).resolve_left hatt)
  refine ⟨hgone, fun hclosed => ?_⟩
  have hnone : ∀ id, t.server.state.relay.hub.sessions.lookup id = none := by
    intro id
    by_contra hs
    obtain ⟨hid, -⟩ := (h.ids.live id).mp (Option.isSome_iff_ne_none.mpr hs)
    obtain ⟨c, hc, hpc⟩ := h.made id hid
    refine hs (hgone id (.inr ⟨c, hc, (hclosed.clients c).resolve_left hpc⟩) ?_)
    rintro ⟨l, -, hl⟩
    exact hclosed.legs l hl
  apply AList.ext
  apply List.eq_nil_iff_forall_not_mem.mpr
  rintro ⟨id, x⟩ hx
  have hsome := AList.mem_lookup_iff.mpr hx
  rw [hnone id] at hsome
  cases hsome

theorem creator_step (h : Tended t) (hid : id ∈ t.server.state.relay.created) :
    (t.step e).creator id = t.creator id := by
  simp only [step]
  cases hcr : t.server.creating e with
  | none => rfl
  | some x =>
    obtain ⟨i, c⟩ := x
    refine Function.update_of_ne ?_ _ _
    rintro rfl
    exact (Server.creating_created h.fresh hcr).1 hid

/-- A session that was let go of was so before, or its creator lets go of it now. -/
theorem letGo_step (h : Tended t) (hlet : (t.step e).LetGo id) :
    t.LetGo id ∨ t.LetsGo e id := by
  rcases hlet with hd | ⟨c, hc, hpc⟩
  · simp only [step] at hd
    cases hdis : t.server.disconnecting e with
    | none =>
      rw [hdis] at hd
      exact .inl (.inl hd)
    | some x =>
      obtain ⟨i, c⟩ := x
      simp only [hdis] at hd
      split_ifs at hd with hc
      · rcases List.mem_cons.mp hd with rfl | hd
        · exact .inr ⟨c, hc, .inl hdis⟩
        · exact .inl (.inl hd)
      · exact .inl (.inl hd)
  · have hc' : t.creator id = some c := by
      simp only [step] at hc
      cases hcr : t.server.creating e with
      | none => simpa only [hcr] using hc
      | some x =>
        obtain ⟨i, d⟩ := x
        simp only [hcr, Function.update_apply] at hc
        split_ifs at hc with hi
        · -- the task that creates a session has not returned
          obtain ⟨a, ha⟩ := (Server.creating_created h.fresh hcr).2.2
          cases hc
          simp only [step] at hpc
          rw [ha] at hpc
          cases hpc
        · exact hc
    rcases Server.returned_step hpc with hpc | hcl
    · exact .inl (.inr ⟨c, hc', hpc⟩)
    · exact .inr ⟨c, hc', .inr hcl⟩

/-- The creator that lets go of a session has done so after the event. -/
theorem letsGo_step (hgo : t.LetsGo e id) : (t.step e).LetGo id := by
  obtain ⟨c, hc, hdis | hcl⟩ := hgo
  · refine .inl ?_
    simp [step, hdis, hc]
  · have hstep := Server.closing_eq_some hcl
    have hpc : ((t.step e).server.clients c).pc = .returned := by
      simp [step, hstep, Server.setClient_clients]
    have hnone : t.server.creating e = none := by
      cases e with
      | clientStep d => cases hcl
      | _ => rfl
    refine .inr ⟨c, ?_, hpc⟩
    simp only [step, hnone]
    exact hc

theorem relay_letsGo (hgo : t.LetsGo e id) :
    (t.server.step e).state.relay = t.server.state.relay := by
  obtain ⟨c, -, hdis | hcl⟩ := hgo
  · exact Server.relay_disconnecting hdis
  · rw [Server.closing_eq_some hcl, Server.setClient_state]

theorem inUse_step {s : Server} (h : s.state.relay.InUse id) (e : Event) :
    (s.step e).state.relay.InUse id := by
  obtain ⟨es, hes⟩ := s.relay_step e
  rw [hes]
  exact h.run es

theorem ids_step {s : Server} (h : s.state.relay.Ids) (e : Event) : (s.step e).state.relay.Ids := by
  obtain ⟨es, hes⟩ := s.relay_step e
  rw [hes]
  exact run_invariant (fun n e h => h.move (Relay.step_move n e)) h es

theorem created_subset (s : Server) (e : Event) :
    s.state.relay.created ⊆ (s.step e).state.relay.created := by
  obtain ⟨es, hes⟩ := s.relay_step e
  intro id hid
  rw [hes]
  exact run_invariant (fun n e h => Relay.created_move (Relay.step_move n e) h) hid es

theorem Tended.made_step (h : Tended t) (hid : id ∈ (t.step e).server.state.relay.created) :
    ∃ c, (t.step e).creator id = some c ∧ ((t.step e).server.clients c).pc ≠ .unopened := by
  rcases Server.created_step hid with hid | ⟨c, hcr⟩
  · obtain ⟨c, hc, hpc⟩ := h.made id hid
    exact ⟨c, by rw [creator_step h hid, hc], Server.client_opened_step hpc⟩
  · obtain ⟨-, -, a, ha⟩ := Server.creating_created h.fresh hcr
    refine ⟨c, by simp [step, hcr], ?_⟩
    rw [show (t.step e).server = t.server.step e from rfl, ha]
    simp

theorem Tended.known_step (h : Tended t) (hc : (t.step e).creator id = some c) :
    id ∈ (t.step e).server.state.relay.created := by
  by_cases hid : id ∈ t.server.state.relay.created
  · exact created_subset t.server e hid
  · simp only [step] at hc
    cases hcr : t.server.creating e with
    | none =>
      rw [hcr] at hc
      exact absurd (h.known id c hc) hid
    | some x =>
      obtain ⟨i, d⟩ := x
      simp only [hcr, Function.update_apply] at hc
      split_ifs at hc with hi
      · exact hi ▸ (Server.creating_created h.fresh hcr).2.1
      · exact absurd (h.known id c hc) hid

theorem Tended.owned_step (h : Tended t) (hid : id ∈ (t.step e).disconnected) :
    ((t.step e).creator id).isSome = true := by
  have hlet : t.LetGo id ∨ t.LetsGo e id := letGo_step h (.inl hid)
  obtain ⟨c, hc, -⟩ := h.made id (h.created hlet)
  rw [creator_step h (h.created hlet), hc, Option.isSome_some]

theorem Tended.step (h : Tended t) (hg : t.LetsGoUsed e) : Tended (t.step e) := by
  refine ⟨ids_step h.ids e, h.fresh.move (Server.step_move _ e), fun id => h.made_step,
    fun id c => h.known_step, fun id => h.owned_step, fun id hlet => ?_⟩
  have hbefore := letGo_step h hlet
  have hused : t.server.state.relay.Used id := by
    rcases hbefore with hlet | hgo
    · exact h.used id hlet
    · exact hg id hgo
  exact (inUse_step ⟨h.ids, h.created hbefore, hused⟩ e).used

theorem Tended.letsGoUsed (h : Tended t) (hn : NoneOutlives (t.step e)) : t.LetsGoUsed e := by
  intro id hgo
  by_cases hatt : t.server.state.relay.Attended id
  · exact .inl hatt
  · have hrelay : (t.step e).server.state.relay = t.server.state.relay := relay_letsGo hgo
    have hnone := hn.gone id (letsGo_step hgo) (by rwa [hrelay])
    rw [hrelay] at hnone
    by_contra hused
    have hlive := (h.ids.live id).mpr ⟨h.created (.inr hgo), fun hr => hused (.inr hr)⟩
    rw [hnone] at hlive
    cases hlive

/-- No session outlives its users just as long as a client lets go of none that no leg has used. -/
theorem noneOutlives_iff (secret : String) (es : List Event) :
    Always step NoneOutlives (new secret) es ↔ Steps step LetsGoUsed (new secret) es := by
  have hstep : ∀ t e, Tended t → LetsGoUsed t e → Tended (t.step e) := fun t e h hg => h.step hg
  have hexact : ∀ t e, Tended t → NoneOutlives (t.step e) → LetsGoUsed t e :=
    fun t e h hn => h.letsGoUsed hn
  exact always_iff_steps_of_all hstep (fun t h => h.noneOutlives) hexact (tended_new secret)

def directVisit : List Event :=
  [.agentOpen 0, .agentFrame 0 (.ofMessage (AgentMessage.register "desk" "t" (some "100.64.0.7")
    5900)) 0, .agentStep 0, .clientOpen 0, .clientFrame 0
    (.ofMessage (ClientMessage.connect "desk" "t")) ⟨7⟩, .clientStep 0, .clientStep 0,
    .clientStep 0, .clientStep 0, .clientEnd 0]

/-- The session of a direct connection stays in the map. -/
theorem session_outlives : ¬ ∀ secret es, Always step NoneOutlives (new secret) es := by
  intro h
  have hgone := (h "t" directVisit _ List.prefix_rfl).gone ⟨7⟩
  have hcreator : (run step (new "t") directVisit).creator ⟨7⟩ = some 0 := by decide +kernel
  have hreturned : ((run step (new "t") directVisit).server.clients 0).pc = .returned := by
    decide +kernel
  have hlegs : (run step (new "t") directVisit).server.state.relay.legs = Relay.new.legs := by rfl
  have hnone := hgone (.inr ⟨0, hcreator, hreturned⟩) (by
    rintro ⟨l, -, hl⟩
    rw [hlegs] at hl
    exact hl)
  revert hnone
  decide +kernel

end Owned

end Urc
