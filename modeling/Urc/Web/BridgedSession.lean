import Urc.Web.Bridge
import Urc.Web.SessionRuns

/-! # A session behind the bridge

The page takes the frames of the bridge one after the other: `onmessage` gets the bytes of a binary
frame, and the browser itself answers pings. So a connected session draws the stream that the VNC
server writes, whatever the bridge reads at once and whenever its keepalive ticks.
-/

namespace Urc

open RfbSession ReceiveArray Splice

structure BridgedSession (Z : Type) where
  bridge : Bridge
  session : RfbSession Z ReceiveArray

/-- Something happens at the bridge, the page takes the next frame, or its display has rendered all
that was queued. -/
inductive BridgedEvent
  | bridge (e : BridgeEvent)
  | onmessage
  | rendered

namespace BridgedSession

variable {Z : Type} (zlib : Inflate Z)
  (beyond : RfbSession Z ReceiveArray → StreamEvent → RfbSession Z ReceiveArray)

def nextMessage (s : BridgedSession Z) : Option StreamEvent :=
  match s.bridge.fromVnc.dst.queue with
  | .binary b :: _ => some (.message b)
  | _ => none

def step (s : BridgedSession Z) : BridgedEvent → BridgedSession Z
  -- only the page reads the frames
  | .bridge (.browserReads _) => s
  | .bridge e => { s with bridge := s.bridge.step e }
  | .onmessage =>
    { bridge := s.bridge.step (.browserReads 1)
      session := match s.nextMessage with
        | some e => RfbSession.step zlib ReceiveArray.recvMessage beyond s.session e
        | none => s.session }
  | .rendered =>
    { s with session := RfbSession.step zlib ReceiveArray.recvMessage beyond s.session .rendered }

def SmoothStep (s : BridgedSession Z) : BridgedEvent → Prop
  | .bridge _ => True
  | .onmessage => ∀ e, s.nextMessage = some e → Smooth zlib ReceiveArray.recvMessage beyond s.session e
  | .rendered => Smooth zlib ReceiveArray.recvMessage beyond s.session .rendered

def arrived (b : Bridge) : List UInt8 := b.fromVnc.dst.taken.flatMap binaryOf

theorem arrived_step (b : Bridge) {e : BridgeEvent} (he : ∀ n, e ≠ .browserReads n) :
    arrived (b.step e) = arrived b := by
  have htaken : (b.step e).fromVnc.dst.taken = b.fromVnc.dst.taken := by
    cases e with
    | browserReads n => exact absurd rfl (he n)
    | toVnc n =>
      simp only [Bridge.step, Bridge.goToVnc]
      split
      · rfl
      all_goals split <;> rfl
    | fromVnc n =>
      simp only [Bridge.step, Bridge.goFromVnc]
      split
      · rfl
      all_goals exact (Half.kept_go fromVncLoop n b.fromVnc).taken'
    | keepalive =>
      simp only [Bridge.step, Half.wake]
      split <;> rfl
    | _ => rfl
  rw [arrived, htaken, arrived]

variable {zlib} {beyond} {s : BridgedSession Z}

theorem step_bridge (s : BridgedSession Z) (e : BridgeEvent) : step zlib beyond s (.bridge e) = s ∨
    (∀ n, e ≠ .browserReads n) ∧
      step zlib beyond s (.bridge e) = { s with bridge := s.bridge.step e } := by
  cases e with
  | browserReads n => exact .inl rfl
  | _ => exact .inr ⟨nofun, rfl⟩

theorem sound_step (s : BridgedSession Z) (e : BridgedEvent) (hs : s.bridge.Sound) :
    (step zlib beyond s e).bridge.Sound := by
  cases e with
  | bridge e =>
    obtain hsame | ⟨-, hsame⟩ : _ ∨ _ := step_bridge s e
    · rwa [hsame]
    · rw [hsame]
      exact hs.step e
  | onmessage => exact hs.step (.browserReads 1)
  | rendered => exact hs

theorem arrived_onmessage (s : BridgedSession Z) :
    arrived (s.bridge.step (.browserReads 1)) =
      arrived s.bridge ++ received s.nextMessage.toList := by
  have htaken : (s.bridge.step (.browserReads 1)).fromVnc.dst.taken =
      s.bridge.fromVnc.dst.taken ++ s.bridge.fromVnc.dst.queue.take 1 := rfl
  rw [arrived, htaken, List.flatMap_append, arrived, List.append_cancel_left_eq]
  unfold nextMessage
  cases s.bridge.fromVnc.dst.queue with
  | nil => rfl
  | cons m queue => cases m <;> simp [binaryOf, received]

/-- What an event is for the session: nothing, or an event of its own. -/
theorem exists_session_step {e : BridgedEvent} (he : SmoothStep zlib beyond s e) :
    ∃ own, (step zlib beyond s e).session =
        Transition.run (RfbSession.step zlib ReceiveArray.recvMessage beyond) s.session own ∧
      Transition.Steps (RfbSession.step zlib ReceiveArray.recvMessage beyond)
        (Smooth zlib ReceiveArray.recvMessage beyond) s.session own ∧
      arrived (step zlib beyond s e).bridge = arrived s.bridge ++ received own := by
  cases e with
  | bridge e =>
    refine ⟨[], ?_⟩
    rcases step_bridge s e with hsame | ⟨hread, hsame⟩
    · rw [hsame]
      exact ⟨rfl, trivial, (List.append_nil _).symm⟩
    · rw [hsame]
      exact ⟨rfl, trivial, (arrived_step s.bridge hread).trans (List.append_nil _).symm⟩
  | onmessage =>
    refine ⟨s.nextMessage.toList, ?_, ?_, arrived_onmessage s⟩
    · simp only [step]
      cases s.nextMessage <;> rfl
    · cases hnext : s.nextMessage with
      | none => trivial
      | some m => exact Transition.steps_cons.mpr ⟨he m hnext, trivial⟩
  | rendered =>
    exact ⟨[.rendered], rfl, Transition.steps_cons.mpr ⟨he, trivial⟩, (List.append_nil _).symm⟩

/-- A session behind the bridge is in a run of its own, on what it got of the frames. -/
theorem exists_session_run (es : List BridgedEvent)
    (hes : Transition.Steps (step zlib beyond) (SmoothStep zlib beyond) s es) :
    ∃ own, (Transition.run (step zlib beyond) s es).session =
        Transition.run (RfbSession.step zlib ReceiveArray.recvMessage beyond) s.session own ∧
      Transition.Steps (RfbSession.step zlib ReceiveArray.recvMessage beyond)
        (Smooth zlib ReceiveArray.recvMessage beyond) s.session own ∧
      arrived (Transition.run (step zlib beyond) s es).bridge = arrived s.bridge ++ received own := by
  induction es generalizing s with
  | nil => exact ⟨[], rfl, trivial, (List.append_nil _).symm⟩
  | cons e es ih =>
    obtain ⟨he, hrest⟩ := Transition.steps_cons.mp hes
    obtain ⟨first, hfirst, hsmooth, hgot⟩ := exists_session_step he
    obtain ⟨own, hrun, hsteps, harrived⟩ := ih hrest
    rw [hfirst] at hrun hsteps
    refine ⟨first ++ own, ?_, Transition.steps_append.mpr ⟨hsmooth, hsteps⟩, ?_⟩
    · rw [Transition.run_cons, hrun, Transition.run_append]
    · rw [Transition.run_cons, harrived, hgot, received_append, List.append_assoc]

end BridgedSession

open BridgedSession

variable {Z : Type} {zlib : Inflate Z}
  {beyond : RfbSession Z ReceiveArray → StreamEvent → RfbSession Z ReceiveArray}

def bellBehindPing : List BridgedEvent :=
  [.bridge .keepalive, .bridge (.vncWrites [2]), .bridge (.fromVnc 0), .bridge (.fromVnc 0),
    .bridge (.fromVnc 0), .onmessage, .onmessage]

end Urc
