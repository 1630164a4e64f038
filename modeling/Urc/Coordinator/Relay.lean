import Mathlib.Data.List.AList
import Mathlib.Logic.Function.Basic
import Urc.Common.Message
import Urc.Library.Run

/-! # The relay hub and its legs

`RelayHub` maps a session to the senders of its two legs. Each leg is a task of its
own (`bridge_leg`) whose program counter names the points where another task can run
between two of its steps: before the attach block, at `stream.next()`, before the peer
lookup, between the lookup and the send, and before the final removal.
-/

namespace Urc

/-- A `HashMap`; the order of its entries is not observed. -/
abbrev HashMap (K V : Type) := AList (fun _ : K => V)

/-- A tunnel socket together with the outgoing channel that `bridge_leg` makes for it. -/
abbrev LegId := ℕ

structure Session where
  agentTx : Option LegId
  clientTx : Option LegId
  deriving DecidableEq

namespace Session

def tx (s : Session) (isAgent : Bool) : Option LegId :=
  if isAgent then s.agentTx else s.clientTx

def setTx (s : Session) (isAgent : Bool) (l : LegId) : Session :=
  if isAgent then { s with agentTx := some l } else { s with clientTx := some l }

@[simp] theorem tx_setTx_self (s : Session) (r : Bool) (l : LegId) :
    (s.setTx r l).tx r = some l := by
  cases r <;> rfl

theorem tx_setTx (s : Session) (r r' : Bool) (l : LegId) :
    (s.setTx r l).tx r' = if r' = r then some l else s.tx r' := by
  cases r <;> cases r' <;> rfl

end Session

structure RelayHub where
  sessions : HashMap Uuid Session

namespace RelayHub

def new : RelayHub := ⟨∅⟩

def createSession (h : RelayHub) (id : Uuid) : RelayHub :=
  ⟨h.sessions.insert id ⟨none, none⟩⟩

/-- The attach block of `bridge_leg`: the leg's sender replaces the one stored for its role. -/
def attach (h : RelayHub) (id : Uuid) (isAgent : Bool) (tx : LegId) : RelayHub :=
  match h.sessions.lookup id with
  | some s => ⟨h.sessions.insert id (s.setTx isAgent tx)⟩
  | none => h

/-- The peer lookup of the loop: no session ends the loop, a session gives the other role's
sender. -/
def peerTx (h : RelayHub) (id : Uuid) (isAgent : Bool) : Option (Option LegId) :=
  (h.sessions.lookup id).map (·.tx !isAgent)

def removeSession (h : RelayHub) (id : Uuid) : RelayHub := ⟨h.sessions.erase id⟩

variable {h : RelayHub} {id id' : Uuid} {r : Bool} {l : LegId}

theorem lookup_createSession :
    (h.createSession id).sessions.lookup id' =
      if id' = id then some ⟨none, none⟩ else h.sessions.lookup id' := by
  unfold createSession
  split_ifs with he
  · rw [he, AList.lookup_insert]
  · exact AList.lookup_insert_ne he

theorem lookup_attach :
    (h.attach id r l).sessions.lookup id' =
      if id' = id then (h.sessions.lookup id).map (·.setTx r l) else h.sessions.lookup id' := by
  unfold attach
  split_ifs with he
  · subst he
    split <;> simp_all
  · split
    · exact AList.lookup_insert_ne he
    · rfl

theorem lookup_removeSession :
    (h.removeSession id).sessions.lookup id' =
      if id' = id then none else h.sessions.lookup id' := by
  unfold removeSession
  split_ifs with he
  · rw [he, AList.lookup_erase]
  · exact AList.lookup_erase_ne he

end RelayHub

/-- Where the task of a leg stands in `bridge_leg`. -/
inductive LegPc
  | unopened
  | attaching
  | reading
  | looking (m : Message)
  | sending (m : Message) (peer : Option LegId)
  | ending
  | done
  deriving DecidableEq

/-- How a frame came to an outgoing channel: from the keepalive task of the socket itself, or
forwarded from another leg, where it was the frame received at an index. -/
inductive Origin
  | keepalive
  | leg (src : LegId) (index : ℕ)
  deriving DecidableEq

structure Sent where
  origin : Origin
  frame : Message
  deriving DecidableEq

/--
A leg. The lists are histories: the frames received, those the loop took up while the session
was in the map, and those that the outgoing channel accepted. `found` records whether the
attach block found the session.
-/
structure Leg where
  id : Uuid
  isAgent : Bool
  pc : LegPc
  rxOpen : Bool
  found : Bool
  received : List Message
  taken : List Message
  outgoing : List Sent
  deriving DecidableEq

def Leg.unopened : Leg := ⟨⟨0⟩, false, .unopened, false, false, [], [], []⟩

/-- The hub with the legs on it. `created` and `removed` are histories of session ids: those made,
and those taken out of the map by a leg that ended. -/
structure Relay where
  hub : RelayHub
  legs : LegId → Leg
  created : List Uuid
  removed : List Uuid

/-- What can happen on the legs: a tunnel socket is upgraded, `stream.next()` yields a frame or
ends, the task runs on to its next await, the keepalive ticks, the forward task drops `rx`. -/
inductive LegEvent
  | opened (l : LegId) (id : Uuid) (isAgent : Bool)
  | frame (l : LegId) (m : Message)
  | ended (l : LegId)
  | step (l : LegId)
  | keepalive (l : LegId)
  | closeRx (l : LegId)
  deriving DecidableEq

inductive RelayEvent
  | create (id : Uuid)
  | leg (e : LegEvent)
  deriving DecidableEq

namespace Relay

def new : Relay := ⟨.new, fun _ => .unopened, [], []⟩

def setLeg (n : Relay) (l : LegId) (leg : Leg) : Relay :=
  { n with legs := Function.update n.legs l leg }

@[simp] theorem setLeg_hub (n : Relay) (l : LegId) (leg : Leg) : (n.setLeg l leg).hub = n.hub := rfl
@[simp] theorem setLeg_created (n : Relay) (l : LegId) (leg : Leg) :
    (n.setLeg l leg).created = n.created := rfl
@[simp] theorem setLeg_removed (n : Relay) (l : LegId) (leg : Leg) :
    (n.setLeg l leg).removed = n.removed := rfl

theorem setLeg_legs (n : Relay) (l l' : LegId) (leg : Leg) :
    (n.setLeg l leg).legs l' = if l' = l then leg else n.legs l' := by
  simp [setLeg, Function.update_apply]

/-- `create_session` with an id that `Uuid::new_v4` has not given before. -/
def createSession (n : Relay) (id : Uuid) : Relay :=
  if id ∈ n.created then n
  else { n with hub := n.hub.createSession id, created := id :: n.created }

/-- A frame on an outgoing channel; a channel whose receiver is gone refuses it. -/
def push (n : Relay) (l : LegId) (x : Sent) : Relay :=
  let leg := n.legs l
  if leg.rxOpen then n.setLeg l { leg with outgoing := leg.outgoing ++ [x] } else n

/-- `peer.send(msg)` for the frame that the leg received last. -/
def forward (n : Relay) (l : LegId) (m : Message) : Option LegId → Relay
  | some peer => n.push peer ⟨.leg l ((n.legs l).received.length - 1), m⟩
  | none => n

/-- `bridge_leg`, from one point where it can be interrupted to the next. -/
def legStep (n : Relay) (l : LegId) : Relay :=
  let leg := n.legs l
  match leg.pc with
  | .attaching =>
    { n with hub := n.hub.attach leg.id leg.isAgent l }.setLeg l
      { leg with pc := .reading, found := (n.hub.sessions.lookup leg.id).isSome }
  | .looking m =>
    match n.hub.peerTx leg.id leg.isAgent with
    | none => n.setLeg l { leg with pc := .ending }
    | some peer => n.setLeg l { leg with pc := .sending m peer, taken := leg.taken ++ [m] }
  | .sending m peer =>
    let n' := n.forward l m peer
    n'.setLeg l { n'.legs l with pc := .reading }
  | .ending =>
    { n with
      hub := n.hub.removeSession leg.id
      removed := if (n.hub.sessions.lookup leg.id).isSome then leg.id :: n.removed
        else n.removed }.setLeg l { leg with pc := .done }
  | _ => n

def legEvent (n : Relay) : LegEvent → Relay
  | .opened l id isAgent =>
    if (n.legs l).pc = .unopened then
      n.setLeg l ⟨id, isAgent, .attaching, true, false, [], [], []⟩
    else n
  | .frame l m =>
    let leg := n.legs l
    if leg.pc = .reading then
      n.setLeg l { leg with pc := .looking m, received := leg.received ++ [m] }
    else n
  | .ended l =>
    let leg := n.legs l
    if leg.pc = .reading then n.setLeg l { leg with pc := .ending } else n
  | .step l => n.legStep l
  -- both helper tasks are spawned after the attach block
  | .keepalive l =>
    if (n.legs l).pc = .unopened ∨ (n.legs l).pc = .attaching then n
    else n.push l ⟨.keepalive, .ping []⟩
  | .closeRx l =>
    let leg := n.legs l
    if leg.pc = .unopened ∨ leg.pc = .attaching then n
    else n.setLeg l { leg with rxOpen := false }

def step (n : Relay) : RelayEvent → Relay
  | .create id => n.createSession id
  | .leg e => n.legEvent e

/-! ### What a step can do -/

variable {n n' : Relay} {l d : LegId} {x : Sent}

@[simp] theorem push_hub : (n.push l x).hub = n.hub := by
  unfold push; dsimp only; split <;> rfl

@[simp] theorem push_created : (n.push l x).created = n.created := by
  unfold push; dsimp only; split <;> rfl

@[simp] theorem push_removed : (n.push l x).removed = n.removed := by
  unfold push; dsimp only; split <;> rfl

theorem push_legs : (n.push l x).legs d =
    if d = l ∧ (n.legs l).rxOpen = true then
      { n.legs l with outgoing := (n.legs l).outgoing ++ [x] } else n.legs d := by
  unfold push
  by_cases h : (n.legs l).rxOpen = true <;> simp [h, setLeg_legs]

theorem push_legs_eq (d : LegId) :
    (n.push l x).legs d = { n.legs d with outgoing := ((n.push l x).legs d).outgoing } := by
  rw [push_legs]; split_ifs with h
  · rw [h.1]
  · rfl

@[simp] theorem push_id : ((n.push l x).legs d).id = (n.legs d).id := by rw [push_legs_eq]
@[simp] theorem push_isAgent : ((n.push l x).legs d).isAgent = (n.legs d).isAgent := by
  rw [push_legs_eq]
@[simp] theorem push_pc : ((n.push l x).legs d).pc = (n.legs d).pc := by rw [push_legs_eq]
@[simp] theorem push_rxOpen : ((n.push l x).legs d).rxOpen = (n.legs d).rxOpen := by
  rw [push_legs_eq]
@[simp] theorem push_found : ((n.push l x).legs d).found = (n.legs d).found := by
  rw [push_legs_eq]
@[simp] theorem push_received : ((n.push l x).legs d).received = (n.legs d).received := by
  rw [push_legs_eq]
@[simp] theorem push_taken : ((n.push l x).legs d).taken = (n.legs d).taken := by
  rw [push_legs_eq]

theorem push_outgoing : ((n.push l x).legs d).outgoing =
    if d = l ∧ (n.legs l).rxOpen = true then (n.legs d).outgoing ++ [x]
    else (n.legs d).outgoing := by
  rw [push_legs]; split_ifs with h
  · rw [h.1]
  · rfl

def lastSent (n : Relay) (l : LegId) (m : Message) : Sent :=
  ⟨.leg l ((n.legs l).received.length - 1), m⟩

/-- Every way in which an event changes the relay, with the guard under which it does. -/
inductive Move (n : Relay) : RelayEvent → Relay → Prop
  | stutter {e : RelayEvent} : Move n e n
  | create {id : Uuid} (hid : id ∉ n.created) : Move n (.create id)
      { n with hub := n.hub.createSession id, created := id :: n.created }
  | opened {l : LegId} {id : Uuid} {r : Bool} (hpc : (n.legs l).pc = .unopened) :
      Move n (.leg (.opened l id r)) (n.setLeg l ⟨id, r, .attaching, true, false, [], [], []⟩)
  | frame {l : LegId} {m : Message} (hpc : (n.legs l).pc = .reading) :
      Move n (.leg (.frame l m)) (n.setLeg l
        { n.legs l with pc := .looking m, received := (n.legs l).received ++ [m] })
  | ended {l : LegId} (hpc : (n.legs l).pc = .reading) :
      Move n (.leg (.ended l)) (n.setLeg l { n.legs l with pc := .ending })
  | attach {l : LegId} (hpc : (n.legs l).pc = .attaching) :
      Move n (.leg (.step l))
        ({ n with hub := n.hub.attach (n.legs l).id (n.legs l).isAgent l }.setLeg l
          { n.legs l with
            pc := .reading, found := (n.hub.sessions.lookup (n.legs l).id).isSome })
  | gone {l : LegId} {m : Message} (hpc : (n.legs l).pc = .looking m)
      (hs : n.hub.sessions.lookup (n.legs l).id = none) :
      Move n (.leg (.step l)) (n.setLeg l { n.legs l with pc := .ending })
  | take {l : LegId} {m : Message} {s : Session} (hpc : (n.legs l).pc = .looking m)
      (hs : n.hub.sessions.lookup (n.legs l).id = some s) :
      Move n (.leg (.step l)) (n.setLeg l { n.legs l with
        pc := .sending m (s.tx !(n.legs l).isAgent), taken := (n.legs l).taken ++ [m] })
  | drop {l : LegId} {m : Message} (hpc : (n.legs l).pc = .sending m none) :
      Move n (.leg (.step l)) (n.setLeg l { n.legs l with pc := .reading })
  | forward {l d : LegId} {m : Message} (hpc : (n.legs l).pc = .sending m (some d)) :
      Move n (.leg (.step l)) ((n.push d (n.lastSent l m)).setLeg l
        { (n.push d (n.lastSent l m)).legs l with pc := .reading })
  | remove {l : LegId} (hpc : (n.legs l).pc = .ending) :
      Move n (.leg (.step l)) ({ n with
        hub := n.hub.removeSession (n.legs l).id
        removed := if (n.hub.sessions.lookup (n.legs l).id).isSome then
          (n.legs l).id :: n.removed else n.removed }.setLeg l { n.legs l with pc := .done })
  | ping {l : LegId} (hu : (n.legs l).pc ≠ .unopened) (ha : (n.legs l).pc ≠ .attaching) :
      Move n (.leg (.keepalive l)) (n.push l ⟨.keepalive, .ping []⟩)
  | close {l : LegId} (hu : (n.legs l).pc ≠ .unopened) (ha : (n.legs l).pc ≠ .attaching) :
      Move n (.leg (.closeRx l)) (n.setLeg l { n.legs l with rxOpen := false })

theorem legStep_move (n : Relay) (l : LegId) : Move n (.leg (.step l)) (n.legStep l) := by
  cases hpc : (n.legs l).pc with
  | attaching => simp only [legStep, hpc]; exact .attach hpc
  | looking m =>
    simp only [legStep, hpc, RelayHub.peerTx]
    cases hs : n.hub.sessions.lookup (n.legs l).id with
    | none => exact .gone hpc hs
    | some s => exact .take hpc hs
  | sending m peer =>
    simp only [legStep, hpc]
    cases peer with
    | none => exact .drop hpc
    | some d => exact .forward hpc
  | ending => simp only [legStep, hpc]; exact .remove hpc
  | unopened => simp only [legStep, hpc]; exact .stutter
  | reading => simp only [legStep, hpc]; exact .stutter
  | done => simp only [legStep, hpc]; exact .stutter

theorem step_move (n : Relay) (e : RelayEvent) : Move n e (n.step e) := by
  cases e with
  | create id =>
    simp only [step, createSession]
    split_ifs with hid
    · exact .stutter
    · exact .create hid
  | leg e =>
    unfold step
    dsimp only
    cases e with
    | opened l id r =>
      unfold legEvent
      dsimp only
      split_ifs with hpc
      · exact .opened hpc
      · exact .stutter
    | frame l m =>
      unfold legEvent
      dsimp only
      split_ifs with hpc
      · exact .frame hpc
      · exact .stutter
    | ended l =>
      unfold legEvent
      dsimp only
      split_ifs with hpc
      · exact .ended hpc
      · exact .stutter
    | step l => exact legStep_move n l
    | keepalive l =>
      unfold legEvent
      dsimp only
      split_ifs with hpc
      · exact .stutter
      · exact .ping (fun h => hpc (.inl h)) (fun h => hpc (.inr h))
    | closeRx l =>
      unfold legEvent
      dsimp only
      split_ifs with hpc
      · exact .stutter
      · exact .close (fun h => hpc (.inl h)) (fun h => hpc (.inr h))

end Relay

end Urc
