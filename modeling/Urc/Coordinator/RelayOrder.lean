import Urc.Coordinator.Relay

/-! # Isolation and order of the relay

A sender that the hub stores, or that a leg has looked up, belongs to a leg of the same
session and of the other role. Every forwarded frame is therefore the frame received at
some index on an opposite leg, each index goes out at most once, and the indices that
one leg sends to one socket grow.
-/

namespace Urc

def LegPc.Attached : LegPc → Prop
  | .unopened | .attaching => False
  | _ => True

/-- The number of received frames that the loop has finished with: all but the one in hand. -/
def Leg.settled (leg : Leg) : ℕ :=
  match leg.pc with
  | .looking _ | .sending _ _ => leg.received.length - 1
  | _ => leg.received.length

theorem Leg.settled_le (leg : Leg) : leg.settled ≤ leg.received.length := by
  unfold Leg.settled
  split <;> omega

/-- The indices of the frames of one source leg on an outgoing channel, in order. -/
def indices (src : LegId) (out : List Sent) : List ℕ :=
  out.filterMap fun x => match x.origin with
    | .leg l k => if l = src then some k else none
    | .keepalive => none

theorem mem_indices {src : LegId} {out : List Sent} {k : ℕ} :
    k ∈ indices src out ↔ ∃ x ∈ out, x.origin = .leg src k := by
  simp only [indices, List.mem_filterMap]
  constructor
  · rintro ⟨x, hx, h⟩
    refine ⟨x, hx, ?_⟩
    split at h
    · split_ifs at h with hl
      simp_all
    · simp at h
  · rintro ⟨x, hx, h⟩
    exact ⟨x, hx, by simp [h]⟩

theorem indices_append_self (src : LegId) (out : List Sent) (k : ℕ) (m : Message) :
    indices src (out ++ [⟨.leg src k, m⟩]) = indices src out ++ [k] := by
  simp [indices]

theorem indices_append_ne {src l : LegId} (h : l ≠ src) (out : List Sent) (k : ℕ) (m : Message) :
    indices src (out ++ [⟨.leg l k, m⟩]) = indices src out := by
  simp [indices, h]

theorem indices_append_keepalive (src : LegId) (out : List Sent) (m : Message) :
    indices src (out ++ [⟨.keepalive, m⟩]) = indices src out := by
  simp [indices]

/-- A leg takes up what it receives, in order, until it finds its session gone. -/
def Leg.Logged (leg : Leg) : Prop :=
  match leg.pc with
  | .looking m => leg.received = leg.taken ++ [m]
  | .ending | .done => leg.taken <+: leg.received
  | _ => leg.taken = leg.received

theorem Leg.Logged.taken_le {leg : Leg} (h : leg.Logged) : leg.taken <+: leg.received := by
  unfold Leg.Logged at h
  split at h
  · exact ⟨_, h.symm⟩
  · exact h
  · exact h
  · exact h ▸ List.prefix_rfl

namespace Relay

variable {n n' : Relay} {e : RelayEvent}

/-- Every stored or looked-up sender belongs to an attached leg of the right session and role. -/
structure Wired (n : Relay) : Prop where
  slot : ∀ id s r l, n.hub.sessions.lookup id = some s → s.tx r = some l →
    (n.legs l).id = id ∧ (n.legs l).isAgent = r ∧ (n.legs l).pc.Attached
  peer : ∀ l m d, (n.legs l).pc = .sending m (some d) →
    (n.legs d).id = (n.legs l).id ∧ (n.legs d).isAgent = !(n.legs l).isAgent ∧
      (n.legs d).pc.Attached

theorem wired_new : Wired .new where
  slot id s r l h := by simp [new, RelayHub.new] at h
  peer l m d h := by simp [new, Leg.unopened] at h

/-- A leg can move on if it keeps its name once attached, and holds a sender of its peer only. -/
theorem Wired.setLeg (h : Wired n) {l : LegId} {leg : Leg}
    (hkeep : (n.legs l).pc.Attached → leg.id = (n.legs l).id ∧
      leg.isAgent = (n.legs l).isAgent ∧ leg.pc.Attached)
    (hpeer : ∀ m d, leg.pc = .sending m (some d) → (n.legs d).id = leg.id ∧
      (n.legs d).isAgent = !leg.isAgent ∧ (n.legs d).pc.Attached) : Wired (n.setLeg l leg) := by
  have hsame : ∀ d, (n.legs d).pc.Attached → ((n.setLeg l leg).legs d).id = (n.legs d).id ∧
      ((n.setLeg l leg).legs d).isAgent = (n.legs d).isAgent ∧
        ((n.setLeg l leg).legs d).pc.Attached := by
    intro d hd
    rw [setLeg_legs]
    split_ifs with he
    · subst he
      exact hkeep hd
    · exact ⟨rfl, rfl, hd⟩
  constructor
  · intro id s r d hs ht
    obtain ⟨hid, hr, hd⟩ := h.slot id s r d hs ht
    obtain ⟨hid', hr', hd'⟩ := hsame d hd
    exact ⟨hid'.trans hid, hr'.trans hr, hd'⟩
  · intro a m d ha
    have hold : (n.legs d).id = ((n.setLeg l leg).legs a).id ∧
        (n.legs d).isAgent = !((n.setLeg l leg).legs a).isAgent ∧ (n.legs d).pc.Attached := by
      rw [setLeg_legs] at ha ⊢
      split_ifs at ha ⊢ with he
      · exact hpeer m d ha
      · exact h.peer a m d ha
    obtain ⟨hid, hr, hd⟩ := hold
    obtain ⟨hid', hr', hd'⟩ := hsame d hd
    exact ⟨hid'.trans hid, hr'.trans hr, hd'⟩

theorem Wired.push (h : Wired n) {l : LegId} {x : Sent} : Wired (n.push l x) where
  slot := by simpa using h.slot
  peer := by simpa using h.peer

theorem Wired.hub (h : Wired n) {hub : RelayHub} {created removed : List Uuid}
    (hslot : ∀ id s r l, hub.sessions.lookup id = some s → s.tx r = some l →
      ((n.legs l).id = id ∧ (n.legs l).isAgent = r ∧ (n.legs l).pc.Attached) ∨
        ∃ s₀, n.hub.sessions.lookup id = some s₀ ∧ s₀.tx r = some l) :
    Wired ⟨hub, n.legs, created, removed⟩ where
  slot id s r l hs ht := by
    rcases hslot id s r l hs ht with hl | ⟨s₀, hs₀, ht₀⟩
    · exact hl
    · exact h.slot id s₀ r l hs₀ ht₀
  peer := h.peer

theorem Wired.move (h : Wired n) (hm : Move n e n') : Wired n' := by
  cases hm with
  | stutter => exact h
  | create hid =>
    refine h.hub fun id s r l hl ht => ?_
    rw [RelayHub.lookup_createSession] at hl
    split_ifs at hl
    · obtain rfl := Option.some.inj hl
      cases r <;> simp [Session.tx] at ht
    · exact .inr ⟨s, hl, ht⟩
  | opened hpc => exact h.setLeg (by simp [hpc, LegPc.Attached]) (by simp)
  | frame hpc => exact h.setLeg (by simp [LegPc.Attached]) (by simp)
  | ended hpc => exact h.setLeg (by simp [LegPc.Attached]) (by simp)
  | @attach a hpc =>
    -- the leg is attached first, and then the hub stores its sender
    have hleg : Wired (n.setLeg a { n.legs a with
        pc := .reading, found := (n.hub.sessions.lookup (n.legs a).id).isSome }) :=
      h.setLeg (by simp [LegPc.Attached]) (by simp)
    refine hleg.hub fun id s r l hl ht => ?_
    rw [RelayHub.lookup_attach] at hl
    split_ifs at hl with hi
    · obtain ⟨s₀, hs₀, rfl⟩ := Option.map_eq_some_iff.mp hl
      rw [Session.tx_setTx] at ht
      split_ifs at ht with hr
      · obtain rfl := Option.some.inj ht
        left
        simp [setLeg_legs, hi, hr, LegPc.Attached]
      · exact .inr ⟨s₀, hi ▸ hs₀, ht⟩
    · exact .inr ⟨s, hl, ht⟩
  | gone hpc _ => exact h.setLeg (by simp [LegPc.Attached]) (by simp)
  | @take l m s hpc hl =>
    refine h.setLeg (by simp [LegPc.Attached]) fun m' d hd => ?_
    simp only [LegPc.sending.injEq] at hd
    exact h.slot _ s _ d hl hd.2
  | drop hpc => exact h.setLeg (by simp [LegPc.Attached]) (by simp)
  | forward hpc => exact h.push.setLeg (by simp [LegPc.Attached]) (by simp)
  | @remove a hpc =>
    have hhub : Wired { n with
        hub := n.hub.removeSession (n.legs a).id
        removed := if (n.hub.sessions.lookup (n.legs a).id).isSome then
          (n.legs a).id :: n.removed else n.removed } := by
      refine h.hub fun id s r l hl ht => ?_
      rw [RelayHub.lookup_removeSession] at hl
      split_ifs at hl
      exact .inr ⟨s, hl, ht⟩
    exact hhub.setLeg (by simp [LegPc.Attached]) (by simp)
  | ping hu ha => exact h.push
  | @close l hu ha => exact h.setLeg (fun hatt => ⟨rfl, rfl, hatt⟩) (h.peer l)

/-- The accounts of the forwarded frames. -/
structure Ledger (legs : LegId → Leg) : Prop where
  fresh : ∀ l, (legs l).pc = .unopened → (legs l).received = [] ∧ (legs l).outgoing = []
  hold : ∀ l m, ((legs l).pc = .looking m ∨ ∃ p, (legs l).pc = .sending m p) →
    ∃ pre, (legs l).received = pre ++ [m]
  ping : ∀ d, ∀ x ∈ (legs d).outgoing, x.origin = .keepalive → x.frame = .ping []
  source : ∀ d, ∀ x ∈ (legs d).outgoing, ∀ src k, x.origin = .leg src k →
    (legs src).received[k]? = some x.frame ∧ (legs src).id = (legs d).id ∧
      (legs src).isAgent = !(legs d).isAgent ∧ k < (legs src).settled
  ordered : ∀ d src, (indices src (legs d).outgoing).Pairwise (· < ·)
  once : ∀ src k d d', k ∈ indices src (legs d).outgoing → k ∈ indices src (legs d').outgoing →
    d = d'

/-- What a move that sends nothing changes of the legs, as far as the ledger can see. -/
structure Quiet (legs legs' : LegId → Leg) : Prop where
  outgoing : ∀ l, (legs' l).outgoing = (legs l).outgoing
  ident : ∀ l, (legs l).pc ≠ .unopened →
    (legs' l).id = (legs l).id ∧ (legs' l).isAgent = (legs l).isAgent
  received : ∀ l, (legs l).received <+: (legs' l).received
  settled : ∀ l, (legs l).settled ≤ (legs' l).settled
  fresh : ∀ l, (legs' l).pc = .unopened →
    (legs l).pc = .unopened ∧ (legs' l).received = (legs l).received
  hold : ∀ l m, ((legs' l).pc = .looking m ∨ ∃ p, (legs' l).pc = .sending m p) →
    ∃ pre, (legs' l).received = pre ++ [m]

variable {legs legs' : LegId → Leg}

theorem ledger_new : Ledger Relay.new.legs := by
  constructor <;> simp [new, Leg.unopened, indices]

theorem Ledger.quiet (h : Ledger legs) (q : Quiet legs legs') : Ledger legs' where
  fresh l hl := by
    obtain ⟨hpc, hr⟩ := q.fresh l hl
    rw [hr, q.outgoing]
    exact h.fresh l hpc
  hold := q.hold
  ping d x hx := h.ping d x (q.outgoing d ▸ hx)
  source d x hx src k ho := by
    rw [q.outgoing] at hx
    obtain ⟨hr, hid, hrole, hk⟩ := h.source d x hx src k ho
    have hd : (legs d).pc ≠ .unopened := fun hu => by simp [(h.fresh d hu).2] at hx
    have hs : (legs src).pc ≠ .unopened := fun hu => by simp [(h.fresh src hu).1] at hr
    obtain ⟨t, ht⟩ := q.received src
    rw [(q.ident d hd).1, (q.ident d hd).2, (q.ident src hs).1, (q.ident src hs).2]
    refine ⟨?_, hid, hrole, hk.trans_le (q.settled src)⟩
    rw [← ht, List.getElem?_append_left (List.getElem?_eq_some_iff.mp hr).1, hr]
  ordered d src := by rw [q.outgoing]; exact h.ordered d src
  once src k d d' hd hd' := h.once src k d d' (q.outgoing d ▸ hd) (q.outgoing d' ▸ hd')

/-- Rewriting the record of one leg is quiet if its history of sent frames stays and its history
of received frames and the settled part of it do not shrink. -/
theorem Ledger.quiet_update (h : Ledger legs) {l : LegId} {leg : Leg}
    (ho : leg.outgoing = (legs l).outgoing)
    (hi : (legs l).pc ≠ .unopened → leg.id = (legs l).id ∧ leg.isAgent = (legs l).isAgent)
    (hr : (legs l).received <+: leg.received) (hs : (legs l).settled ≤ leg.settled)
    (hu : leg.pc = .unopened → (legs l).pc = .unopened ∧ leg.received = (legs l).received)
    (hh : ∀ m, (leg.pc = .looking m ∨ ∃ p, leg.pc = .sending m p) →
      ∃ pre, leg.received = pre ++ [m]) : Quiet legs (Function.update legs l leg) := by
  constructor <;> intro l' <;> rw [Function.update_apply] <;> split_ifs with he
  all_goals first | subst he | skip
  · exact ho
  · rfl
  · exact hi
  · exact fun _ => ⟨rfl, rfl⟩
  · exact hr
  · exact List.prefix_rfl
  · exact hs
  · exact le_rfl
  · exact hu
  · exact fun hu' => ⟨hu', rfl⟩
  · exact hh
  · exact h.hold l'

theorem Ledger.goto (h : Ledger legs) {l : LegId} {leg : Leg}
    (ho : leg.outgoing = (legs l).outgoing)
    (hi : leg.id = (legs l).id ∧ leg.isAgent = (legs l).isAgent)
    (hr : leg.received = (legs l).received) (hu : leg.pc ≠ .unopened)
    (hpc : ∀ m, leg.pc ≠ .looking m ∧ ∀ p, leg.pc ≠ .sending m p) :
    Ledger (Function.update legs l leg) := by
  have hsettled : leg.settled = leg.received.length := by
    unfold Leg.settled
    split
    · exact absurd ‹_› (hpc _).1
    · exact absurd ‹_› ((hpc _).2 _)
    · rfl
  have hs : (legs l).settled ≤ leg.settled := by
    rw [hsettled, hr]
    exact (legs l).settled_le
  apply h.quiet
  apply h.quiet_update ho (fun _ => hi) (hr ▸ List.prefix_rfl) hs (fun h => absurd h hu)
  rintro m (hlooking | ⟨p, hsending⟩)
  · exact absurd hlooking (hpc m).1
  · exact absurd hsending ((hpc m).2 p)

theorem mem_push_outgoing {l d : LegId} {x y : Sent} (h : y ∈ ((n.push l x).legs d).outgoing) :
    y ∈ (n.legs d).outgoing ∨ (d = l ∧ y = x) := by
  rw [push_outgoing] at h
  split_ifs at h with hd
  · rcases List.mem_append.mp h with h | h
    · exact .inl h
    · exact .inr ⟨hd.1, List.mem_singleton.mp h⟩
  · exact .inl h

theorem Ledger.push_fresh (h : Ledger n.legs) {d l : LegId} {x : Sent}
    (hu : (n.legs d).pc ≠ .unopened) (hl : ((n.push d x).legs l).pc = .unopened) :
    ((n.push d x).legs l).received = [] ∧ ((n.push d x).legs l).outgoing = [] := by
  rw [push_pc] at hl
  have hne : l ≠ d := fun he => hu (he ▸ hl)
  simpa [push_outgoing, hne] using h.fresh l hl

theorem Ledger.push_keepalive (h : Ledger n.legs) {l : LegId} (hu : (n.legs l).pc ≠ .unopened) :
    Ledger (n.push l ⟨.keepalive, .ping []⟩).legs := by
  have hi : ∀ src d, indices src ((n.push l ⟨.keepalive, .ping []⟩).legs d).outgoing =
      indices src (n.legs d).outgoing := by
    intro src d
    rw [push_outgoing]
    split_ifs
    · rw [indices_append_keepalive]
    · rfl
  constructor
  case fresh => exact fun _ hd => h.push_fresh hu hd
  case hold => exact fun d m hd => by simpa using h.hold d m (by simpa using hd)
  case ping =>
    intro d x hx ho
    rcases mem_push_outgoing hx with hx | ⟨-, rfl⟩
    · exact h.ping d x hx ho
    · rfl
  case source =>
    intro d x hx src k ho
    rcases mem_push_outgoing hx with hx | ⟨-, rfl⟩
    · simpa [Leg.settled] using h.source d x hx src k ho
    · simp at ho
  case ordered => exact fun d src => by rw [hi]; exact h.ordered d src
  case once => exact fun src k d d' hd hd' => h.once src k d d' (hi src d ▸ hd) (hi src d' ▸ hd')

/-- A forwarded entry whose index lies beyond those of every frame sent before. -/
theorem Ledger.push_leg (h : Ledger n.legs) {l d : LegId} {k : ℕ} {m : Message}
    (hu : (n.legs d).pc ≠ .unopened) (hr : (n.legs l).received[k]? = some m)
    (hid : (n.legs l).id = (n.legs d).id) (hrole : (n.legs l).isAgent = !(n.legs d).isAgent)
    (hk : k < (n.legs l).settled) (hnew : ∀ d', ∀ j ∈ indices l (n.legs d').outgoing, j < k) :
    Ledger (n.push d ⟨.leg l k, m⟩).legs := by
  have hmem : ∀ {src d' j}, j ∈ indices src ((n.push d ⟨.leg l k, m⟩).legs d').outgoing →
      j ∈ indices src (n.legs d').outgoing ∨ (d' = d ∧ src = l ∧ j = k) := by
    intro src d' j hj
    obtain ⟨x, hx, ho⟩ := mem_indices.mp hj
    rcases mem_push_outgoing hx with hx | ⟨rfl, rfl⟩
    · exact .inl (mem_indices.mpr ⟨x, hx, ho⟩)
    · simp only [Origin.leg.injEq] at ho
      exact .inr ⟨rfl, ho.1.symm, ho.2.symm⟩
  constructor
  case fresh => exact fun _ hd => h.push_fresh hu hd
  case hold => exact fun d m hd => by simpa using h.hold d m (by simpa using hd)
  case ping =>
    intro d' x hx ho
    rcases mem_push_outgoing hx with hx | ⟨-, rfl⟩
    · exact h.ping d' x hx ho
    · simp at ho
  case source =>
    intro d' x hx src j ho
    rcases mem_push_outgoing hx with hx | ⟨rfl, rfl⟩
    · simpa [Leg.settled] using h.source d' x hx src j ho
    · simp only [Origin.leg.injEq] at ho
      obtain ⟨rfl, rfl⟩ := ho
      simpa [Leg.settled] using ⟨hr, hid, hrole, hk⟩
  case ordered =>
    intro d' src
    rw [push_outgoing]
    split_ifs
    · by_cases hs : l = src
      · subst hs
        rw [indices_append_self, List.pairwise_append]
        exact ⟨h.ordered d' l, List.pairwise_singleton _ _, fun j hj j' hj' => by
          rw [List.mem_singleton.mp hj']; exact hnew d' j hj⟩
      · rw [indices_append_ne hs]; exact h.ordered d' src
    · exact h.ordered d' src
  case once =>
    intro src j d₁ d₂ h₁ h₂
    rcases hmem h₁ with h₁' | ⟨hd₁, hs, hj⟩ <;> rcases hmem h₂ with h₂' | ⟨hd₂, hs', hj'⟩
    · exact h.once src j d₁ d₂ h₁' h₂'
    · exact absurd (hnew d₁ j (hs' ▸ h₁')) (by omega)
    · exact absurd (hnew d₂ j (hs ▸ h₂')) (by omega)
    · exact hd₁.trans hd₂.symm

theorem push_setLeg_legs (n : Relay) (l d : LegId) (x : Sent) (pc : LegPc) :
    ((n.push d x).setLeg l { (n.push d x).legs l with pc := pc }).legs =
      ((n.setLeg l { n.legs l with pc := pc }).push d x).legs := by
  funext l'
  by_cases hl : l' = l
  · subst hl
    by_cases hd : l' = d
    · subst hd
      simp only [setLeg_legs, push_legs, if_true]
      split_ifs <;> rfl
    · simp [setLeg_legs, push_legs, hd]
  · by_cases hd : l' = d
    · subst hd
      simp only [setLeg_legs, push_legs, hl, if_false]
    · simp [setLeg_legs, push_legs, hl, hd]

theorem Ledger.forward (h : Ledger n.legs) (w : Wired n) {l d : LegId} {m : Message}
    (hpc : (n.legs l).pc = .sending m (some d)) :
    Ledger ((n.push d (n.lastSent l m)).setLeg l
      { (n.push d (n.lastSent l m)).legs l with pc := .reading }).legs := by
  obtain ⟨pre, hpre⟩ := h.hold l m (.inr ⟨_, hpc⟩)
  obtain ⟨hid, hrole, hatt⟩ := w.peer l m d hpc
  have hlast : n.lastSent l m = ⟨.leg l pre.length, m⟩ := by simp [lastSent, hpre]
  have hset : (n.legs l).settled = pre.length := by simp [Leg.settled, hpc, hpre]
  have hd : (n.legs d).pc ≠ .unopened := by rintro hu; simp [hu, LegPc.Attached] at hatt
  have hne : d ≠ l := by rintro rfl; cases hb : (n.legs d).isAgent <;> simp [hb] at hrole
  rw [push_setLeg_legs, hlast]
  have h₁ : Ledger (n.setLeg l { n.legs l with pc := .reading }).legs := by
    exact h.goto rfl ⟨rfl, rfl⟩ rfl (by simp) (by simp)
  apply h₁.push_leg
  · simpa [setLeg_legs, hne] using hd
  · simp [setLeg_legs, hpre]
  · simpa [setLeg_legs, hne] using hid.symm
  · simp [setLeg_legs, hne, hrole]
  · simp [setLeg_legs, Leg.settled, hpre]
  · intro d' j hj
    have hj' : j ∈ indices l (n.legs d').outgoing := by
      rw [setLeg_legs] at hj
      split_ifs at hj with he
      · rw [he]; exact hj
      · exact hj
    obtain ⟨x, hx, ho⟩ := mem_indices.mp hj'
    have := (h.source d' x hx l j ho).2.2.2
    omega

theorem Ledger.move (h : Ledger n.legs) (w : Wired n) (hm : Move n e n') : Ledger n'.legs := by
  cases hm with
  | stutter => exact h
  | create hid => exact h
  | opened hpc =>
    obtain ⟨hr, ho⟩ := h.fresh _ hpc
    refine h.quiet (h.quiet_update ho.symm (absurd hpc) (by simp [hr]) ?_ ?_ ?_) <;>
      simp [Leg.settled, hpc, hr]
  | frame hpc =>
    refine h.quiet (h.quiet_update rfl (fun _ => ⟨rfl, rfl⟩) (List.prefix_append _ _) ?_ ?_ ?_) <;>
      simp [Leg.settled, hpc]
  | ended hpc =>
    exact h.goto rfl ⟨rfl, rfl⟩ rfl (by simp) (by simp)
  | attach hpc =>
    exact h.goto rfl ⟨rfl, rfl⟩ rfl (by simp) (by simp)
  | gone hpc hs =>
    exact h.goto rfl ⟨rfl, rfl⟩ rfl (by simp) (by simp)
  | take hpc hs =>
    obtain ⟨pre, hpre⟩ := h.hold _ _ (.inl hpc)
    refine h.quiet (h.quiet_update rfl (fun _ => ⟨rfl, rfl⟩) List.prefix_rfl ?_ ?_ ?_) <;>
      simp [Leg.settled, hpc, hpre]
  | drop hpc =>
    exact h.goto rfl ⟨rfl, rfl⟩ rfl (by simp) (by simp)
  | forward hpc => exact h.forward w hpc
  | remove hpc =>
    exact h.goto rfl ⟨rfl, rfl⟩ rfl (by simp) (by simp)
  | ping hu _ => exact h.push_keepalive hu
  | close _ _ =>
    exact h.quiet (h.quiet_update rfl (fun _ => ⟨rfl, rfl⟩) List.prefix_rfl le_rfl
      (fun hu => ⟨hu, rfl⟩) (h.hold _))

/-- The sessions in the map are those created and not taken out again. -/
structure Ids (n : Relay) : Prop where
  live : ∀ id, (n.hub.sessions.lookup id).isSome ↔ id ∈ n.created ∧ id ∉ n.removed
  created : ∀ id ∈ n.removed, id ∈ n.created

theorem Ids.lookup_removed (h : Ids n) {id : Uuid} (hr : id ∈ n.removed) :
    n.hub.sessions.lookup id = none := by
  simpa [hr] using h.live id

theorem ids_new : Ids .new := by
  constructor <;> simp [new, RelayHub.new]

theorem Ids.move (h : Ids n) (hm : Move n e n') : Ids n' := by
  cases hm with
  | @create id₀ hid =>
    have hr : id₀ ∉ n.removed := fun hr => hid (h.created _ hr)
    refine ⟨fun id => ?_, fun id hr => List.mem_cons_of_mem _ (h.created id hr)⟩
    rw [RelayHub.lookup_createSession]
    by_cases he : id = id₀
    · simp [he, hr]
    · simp [he, h.live id]
  | @attach l hpc =>
    refine ⟨fun id => ?_, h.created⟩
    rw [setLeg_hub, RelayHub.lookup_attach]
    by_cases he : id = (n.legs l).id
    · simpa [he] using h.live (n.legs l).id
    · simpa [he] using h.live id
  | @remove l hpc =>
    have hl := h.live (n.legs l).id
    refine ⟨fun id => ?_, fun id hr => ?_⟩
    · rw [setLeg_hub, setLeg_created, setLeg_removed, RelayHub.lookup_removeSession]
      by_cases he : id = (n.legs l).id
      · subst he
        rw [if_pos rfl]
        by_cases hs : (n.hub.sessions.lookup (n.legs l).id).isSome = true
        · simp [hs]
        · have hgone : (n.legs l).id ∈ n.created → (n.legs l).id ∈ n.removed :=
            fun hc => by_contra fun hr => hs (hl.mpr ⟨hc, hr⟩)
          simpa [hs] using hgone
      · have := h.live id
        rw [if_neg he]
        split_ifs <;> simp [he, this]
    · rw [setLeg_removed] at hr
      split_ifs at hr with hs
      · rcases List.mem_cons.mp hr with rfl | hr
        · exact (hl.mp hs).1
        · exact h.created id hr
      · exact h.created id hr
  | forward hpc => exact ⟨fun id => by simpa using h.live id, fun id => by simpa using h.created id⟩
  | ping _ _ => exact ⟨fun id => by simpa using h.live id, fun id => by simpa using h.created id⟩
  | stutter => exact h
  | opened _ => exact ⟨h.live, h.created⟩
  | frame _ => exact ⟨h.live, h.created⟩
  | ended _ => exact ⟨h.live, h.created⟩
  | gone _ _ => exact ⟨h.live, h.created⟩
  | take _ _ => exact ⟨h.live, h.created⟩
  | drop _ => exact ⟨h.live, h.created⟩
  | close _ _ => exact ⟨h.live, h.created⟩

theorem logged_move (h : ∀ l, (n.legs l).Logged) (hm : Move n e n') (l : LegId) :
    (n'.legs l).Logged := by
  have hset : ∀ {k : Relay} {l' : LegId} {leg : Leg}, (∀ l, (k.legs l).Logged) → leg.Logged →
      ((k.setLeg l' leg).legs l).Logged := by
    intro k l' leg hk hleg
    rw [setLeg_legs]
    split_ifs
    · exact hleg
    · exact hk l
  have hpush : ∀ {d : LegId} {x : Sent} (l : LegId), ((n.push d x).legs l).Logged :=
    fun l => by simpa [Leg.Logged] using h l
  have hat : ∀ {l' : LegId} {pc : LegPc}, (n.legs l').pc = pc →
      Leg.Logged { n.legs l' with pc := pc } := by
    rintro l' _ rfl
    exact h l'
  cases hm with
  | stutter => exact h l
  | create _ => exact h l
  | opened _ => exact hset h rfl
  | @frame l' m hpc =>
    have hall : (n.legs l').taken = (n.legs l').received := hat hpc
    exact hset h (congrArg (· ++ [m]) hall.symm)
  | @ended l' hpc =>
    have hall : (n.legs l').taken = (n.legs l').received := hat hpc
    exact hset h ⟨[], by rw [List.append_nil, hall]⟩
  | @attach l' hpc =>
    have hall : (n.legs l').taken = (n.legs l').received := hat hpc
    exact hset h hall
  | @gone l' m hpc hs =>
    have hlast : (n.legs l').received = (n.legs l').taken ++ [m] := hat hpc
    exact hset h ⟨[m], hlast.symm⟩
  | @take l' m s hpc hs =>
    have hlast : (n.legs l').received = (n.legs l').taken ++ [m] := hat hpc
    exact hset h hlast.symm
  | @drop l' m hpc =>
    have hall : (n.legs l').taken = (n.legs l').received := hat hpc
    exact hset h hall
  | @forward l' d m hpc =>
    have hall : (n.legs l').taken = (n.legs l').received := hat hpc
    exact hset hpush (by simpa [Leg.Logged] using hall)
  | @remove l' hpc =>
    have hsome : (n.legs l').taken <+: (n.legs l').received := hat hpc
    exact hset h hsome
  | ping _ _ => exact hpush l
  | @close l' hu ha => exact hset h (h l')

structure Sound (n : Relay) : Prop where
  wired : Wired n
  ledger : Ledger n.legs
  ids : Ids n
  logged : ∀ l, (n.legs l).Logged

theorem sound_new : Sound .new := ⟨wired_new, ledger_new, ids_new, fun _ => rfl⟩

theorem Sound.step (h : Sound n) (e : RelayEvent) : Sound (n.step e) :=
  have hm := step_move n e
  ⟨h.wired.move hm, h.ledger.move h.wired hm, h.ids.move hm, logged_move h.logged hm⟩

theorem Sound.run (h : Sound n) (es : List RelayEvent) : Sound (Transition.run Relay.step n es) :=
  Transition.run_invariant (fun _ e h => h.step e) h es

/-- The leg holds the frame of an entry, looked up but not yet sent. -/
def InHand (n : Relay) (src : LegId) (k : ℕ) (m : Message) (d : LegId) : Prop :=
  (n.legs src).pc = .sending m (some d) ∧ (n.legs src).received.length = k + 1

/-- Since `n₀`, a removed session has sent nothing but the frames that were in hand there. -/
structure Drained (n₀ : Relay) (id : Uuid) (n : Relay) : Prop where
  removed : id ∈ n.removed
  sent : ∀ d, ∀ x ∈ (n.legs d).outgoing, ∀ src k, x.origin = .leg src k →
    (n.legs src).id = id → x ∈ (n₀.legs d).outgoing ∨ n₀.InHand src k x.frame d
  hand : ∀ src m p, (n.legs src).id = id → (n.legs src).pc = .sending m p →
    (n₀.legs src).pc = .sending m p ∧ (n₀.legs src).received = (n.legs src).received

theorem drained_refl {id : Uuid} (h : id ∈ n.removed) : Drained n id n :=
  ⟨h, fun _ _ hx _ _ _ _ => .inl hx, fun _ _ _ _ hp => ⟨hp, rfl⟩⟩

theorem Drained.setLeg {n₀ : Relay} {id : Uuid} (h : Drained n₀ id n) {l : LegId} {leg : Leg}
    (hid : leg.id = (n.legs l).id) (hout : leg.outgoing = (n.legs l).outgoing)
    (hpc : leg.id = id → ∀ m p, leg.pc = .sending m p →
      (n.legs l).pc = .sending m p ∧ leg.received = (n.legs l).received) :
    Drained n₀ id (n.setLeg l leg) := by
  have hids : ∀ d, ((n.setLeg l leg).legs d).id = (n.legs d).id := by
    intro d
    rw [setLeg_legs]
    split_ifs with he
    · rw [he, hid]
    · rfl
  have houts : ∀ d, ((n.setLeg l leg).legs d).outgoing = (n.legs d).outgoing := by
    intro d
    rw [setLeg_legs]
    split_ifs with he
    · rw [he, hout]
    · rfl
  refine ⟨h.removed, fun d x hx src k ho hi => ?_, fun src m p hi hp => ?_⟩
  · rw [houts] at hx
    rw [hids] at hi
    exact h.sent d x hx src k ho hi
  · rw [setLeg_legs] at hi hp ⊢
    split_ifs at hi hp ⊢ with he
    · obtain ⟨hp', hrec⟩ := hpc hi m p hp
      obtain ⟨hp₀, hrec₀⟩ := h.hand l m p (hid ▸ hi) hp'
      exact ⟨he ▸ hp₀, by rw [he, hrec₀, hrec]⟩
    · exact h.hand src m p hi hp

theorem Drained.hub {n₀ : Relay} {id : Uuid} (h : Drained n₀ id n) {hub : RelayHub}
    {created removed : List Uuid} (hr : id ∈ removed) :
    Drained n₀ id ⟨hub, n.legs, created, removed⟩ :=
  ⟨hr, h.sent, h.hand⟩

theorem Drained.ping {n₀ : Relay} {id : Uuid} (h : Drained n₀ id n) {l : LegId} {m : Message} :
    Drained n₀ id (n.push l ⟨.keepalive, m⟩) := by
  refine ⟨by simpa using h.removed, fun d x hx src k ho hi => ?_, by simpa using h.hand⟩
  rcases mem_push_outgoing hx with hx | ⟨-, rfl⟩
  · exact h.sent d x hx src k ho (by simpa using hi)
  · cases ho

/-- What a leg of the session sends was in its hand from the start. -/
theorem Drained.forward {n₀ : Relay} {id : Uuid} (h : Drained n₀ id n) (hn : Sound n)
    {l d : LegId} {m : Message} (hpc : (n.legs l).pc = .sending m (some d)) :
    Drained n₀ id (n.push d (n.lastSent l m)) := by
  obtain ⟨pre, hpre⟩ := hn.ledger.hold l m (.inr ⟨_, hpc⟩)
  refine ⟨by simpa using h.removed, fun d' x hx src k ho hi => ?_, by simpa using h.hand⟩
  rw [push_id] at hi
  rcases mem_push_outgoing hx with hx | ⟨rfl, rfl⟩
  · exact h.sent d' x hx src k ho hi
  · simp only [lastSent, Origin.leg.injEq] at ho
    obtain ⟨rfl, rfl⟩ := ho
    obtain ⟨hp, hrec⟩ := h.hand l m _ hi hpc
    exact .inr ⟨hp, by simp [hrec, hpre]⟩

theorem Drained.move {n₀ : Relay} {id : Uuid} (h : Drained n₀ id n) (hn : Sound n)
    (hm : Move n e n') : Drained n₀ id n' := by
  have hgone : n.hub.sessions.lookup id = none := hn.ids.lookup_removed h.removed
  cases hm with
  | stutter => exact h
  | create hid => exact h.hub h.removed
  | @opened l id' r hpc =>
    obtain ⟨hrec, hout⟩ := hn.ledger.fresh l hpc
    refine ⟨h.removed, fun d x hx src k ho hi => ?_, fun src m p hi hp => ?_⟩
    · have hx' : x ∈ (n.legs d).outgoing := by
        rw [setLeg_legs] at hx
        split_ifs at hx
        · simp at hx
        · exact hx
      have hne : src ≠ l := by
        rintro rfl
        have hlen := (hn.ledger.source d x hx' src k ho).1
        simp [hrec] at hlen
      exact h.sent d x hx' src k ho (by simpa [setLeg_legs, hne] using hi)
    · rw [setLeg_legs] at hi hp ⊢
      split_ifs at hi hp ⊢
      exact h.hand src m p hi hp
  | frame hpc => exact h.setLeg rfl rfl (by simp)
  | ended hpc => exact h.setLeg rfl rfl (by simp)
  | attach hpc => exact (h.hub h.removed).setLeg rfl rfl (by simp)
  | gone hpc _ => exact h.setLeg rfl rfl (by simp)
  | @take l m s hpc hl =>
    refine h.setLeg rfl rfl fun hid => ?_
    -- a leg of the session finds it gone
    rw [show (n.legs l).id = id from hid, hgone] at hl
    cases hl
  | drop hpc => exact h.setLeg rfl rfl (by simp)
  | forward hpc => exact (h.forward hn hpc).setLeg rfl rfl (by simp)
  | remove hpc =>
    refine (h.hub ?_).setLeg rfl rfl (by simp)
    split_ifs
    · exact List.mem_cons_of_mem _ h.removed
    · exact h.removed
  | ping hu ha => exact h.ping
  | close hu ha => exact h.setLeg rfl rfl fun _ _ _ hp => ⟨hp, rfl⟩

theorem drained_run (h : Sound n) {id : Uuid} (hid : id ∈ n.removed) (es : List RelayEvent) :
    Drained n id (Transition.run Relay.step n es) := by
  have hkeep : ∀ n' e, Sound n' ∧ Drained n id n' →
      Sound (n'.step e) ∧ Drained n id (n'.step e) :=
    fun n' e h' => ⟨h'.1.step e, h'.2.move h'.1 (step_move n' e)⟩
  exact (Transition.run_invariant hkeep ⟨h, drained_refl hid⟩ es).2

/-- Once a leg has removed a session, no frame is forwarded on its id any more. -/
def SilentAfterRemoval (n : Relay) (es : List RelayEvent) : Prop :=
  ∀ id ∈ n.removed, ∀ d, ∀ x ∈ ((Transition.run step n es).legs d).outgoing, ∀ src k,
    x.origin = .leg src k → ((Transition.run step n es).legs src).id = id →
      x ∈ (n.legs d).outgoing

/--
Agent leg 1 looks up client leg 2 for the frame that it holds. Agent leg 3 attaches to the same
session, ends and removes it; only then does leg 1 send.
-/
def removalRace : List RelayEvent :=
  [.create ⟨7⟩, .leg (.opened 1 ⟨7⟩ true), .leg (.step 1), .leg (.opened 2 ⟨7⟩ false),
    .leg (.step 2), .leg (.frame 1 (.binary [82])), .leg (.step 1),
    .leg (.opened 3 ⟨7⟩ true), .leg (.step 3), .leg (.ended 3), .leg (.step 3)]

/-- The lookup and the send are two steps, so a frame can go out after the removal. -/
theorem relay_not_silent_after_removal :
    ¬ SilentAfterRemoval (Transition.run step .new removalRace) [.leg (.step 1)] := by
  intro h
  have hx := h ⟨7⟩ (by decide) 2 ⟨.leg 1 0, .binary [82]⟩ (by decide) 1 0 rfl (by decide)
  exact absurd hx (by decide)

/--
Isolation and order, for every run from the empty relay. Every frame on an outgoing channel that
is not the socket's own keepalive was received on a leg of the same session and the other role;
each received frame goes out at most once; the frames of one source on one socket keep their
order; and after the removal of a session nothing is forwarded on its id but what was in hand,
at most one frame for each leg.
-/
theorem relay_isolated (es : List RelayEvent) :
    let n := Transition.run step .new es
    (∀ d, ∀ x ∈ (n.legs d).outgoing, (x.origin = .keepalive ∧ x.frame = .ping []) ∨
      ∃ src k, x.origin = .leg src k ∧ (n.legs src).received[k]? = some x.frame ∧
        (n.legs src).id = (n.legs d).id ∧ (n.legs src).isAgent = !(n.legs d).isAgent) ∧
    (∀ src d, (indices src (n.legs d).outgoing).Pairwise (· < ·)) ∧
    (∀ src k d d', k ∈ indices src (n.legs d).outgoing → k ∈ indices src (n.legs d').outgoing →
      d = d') ∧
    ∀ id ∈ n.removed, ∀ es', let n' := Transition.run step n es'
      n'.hub.sessions.lookup id = none ∧
      ∀ d, ∀ x ∈ (n'.legs d).outgoing, ∀ src k, x.origin = .leg src k → (n'.legs src).id = id →
        x ∈ (n.legs d).outgoing ∨ n.InHand src k x.frame d := by
  intro n
  have hn : Sound n := sound_new.run es
  refine ⟨fun d x hx => ?_, fun src d => hn.ledger.ordered d src, hn.ledger.once, ?_⟩
  · cases ho : x.origin with
    | keepalive => exact .inl ⟨rfl, hn.ledger.ping d x hx ho⟩
    | leg src k =>
      obtain ⟨hr, hid, hrole, -⟩ := hn.ledger.source d x hx src k ho
      exact .inr ⟨src, k, rfl, hr, hid, hrole⟩
  · intro id hid es' n'
    have hd : Drained n id n' := drained_run hn hid es'
    exact ⟨(hn.run es').ids.lookup_removed hd.removed, hd.sent⟩

end Relay

end Urc
