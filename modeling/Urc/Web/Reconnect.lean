import Urc.Library.Run
import Mathlib.Algebra.Group.Nat.Defs
import Mathlib.Data.List.DropRight

/-! # The reconnect controller of the web page

The page keeps one RFB object of noVNC at a time and replaces it when its connection is lost, after
a pause that doubles. Handlers of all RFB objects that were ever made stay registered. The
connection states of an RFB object are those of the vendored noVNC, where `disconnected` is
permanent.
-/

namespace Urc

inductive ConnectionState
  | connecting
  | connected
  | disconnecting
  | disconnected
  deriving DecidableEq

inductive RfbSignal
  | connect
  | disconnect
  deriving DecidableEq

/-- `closeHandler` is the handler of the socket's `close` event, `disconnTimer` the timer that runs
while the socket closes. -/
structure Rfb where
  state : ConnectionState
  disconnTimer : Bool
  closeHandler : Bool
  deriving DecidableEq

/-- What may happen to an RFB object: the handshake is through, something fails, the socket
closes, or the disconnection times out. -/
inductive RfbEvent
  | serverInit
  | fail
  | socketClose
  | disconnTimeout
  deriving DecidableEq

namespace Rfb

def new : Rfb := ⟨.connecting, false, true⟩

/-- The transitions that `_updateConnectionState` makes. -/
def allowed : ConnectionState → ConnectionState → Bool
  | .connecting, .connected => true
  | .disconnecting, .disconnected => true
  | .connected, .disconnecting | .connecting, .disconnecting => true
  | _, _ => false

/-- `_updateConnectionState`, with the events that it dispatches. -/
def updateConnectionState (r : Rfb) (state : ConnectionState) : Rfb × List RfbSignal :=
  if allowed r.state state then
    let off := r.disconnTimer && state ≠ .disconnecting
    let r := { r with
      state := state
      disconnTimer := r.disconnTimer && !off
      closeHandler := r.closeHandler && !off }
    match state with
    | .connected => (r, [.connect])
    | .disconnecting => ({ r with disconnTimer := true }, [])
    | .disconnected => (r, [.disconnect])
    | .connecting => (r, [])
  else (r, [])

def updateTwice (r : Rfb) (first second : ConnectionState) : Rfb × List RfbSignal :=
  let a := r.updateConnectionState first
  let b := a.1.updateConnectionState second
  (b.1, a.2 ++ b.2)

def fail (r : Rfb) : Rfb × List RfbSignal := r.updateTwice .disconnecting .disconnected

def disconnect (r : Rfb) : Rfb × List RfbSignal := r.updateConnectionState .disconnecting

def socketClose (r : Rfb) : Rfb × List RfbSignal :=
  if r.closeHandler then
    let a := match r.state with
      | .connecting => r.fail
      | .connected => r.updateTwice .disconnecting .disconnected
      | .disconnecting => r.updateConnectionState .disconnected
      | .disconnected => r.fail
    ({ a.1 with closeHandler := false }, a.2)
  else (r, [])

def step (r : Rfb) : RfbEvent → Rfb × List RfbSignal
  | .serverInit => r.updateConnectionState .connected
  | .fail => r.fail
  | .socketClose => r.socketClose
  | .disconnTimeout => if r.disconnTimer then r.updateConnectionState .disconnected else (r, [])

end Rfb

inductive PageNote
  | connected
  | delay (ms : ℕ)
  deriving DecidableEq

/-- `rfbs` are all RFB objects ever made, `rfb` is the one of the page; `timeouts` are the timers
that the browser has to run. -/
structure Page where
  rfbs : List Rfb
  rfb : Option ℕ
  userDisconnected : Bool
  reconnectAttempt : ℕ
  reconnectTimer : Option ℕ
  timeouts : List ℕ
  nextTimeout : ℕ
  notes : List PageNote

inductive PageEvent
  | rfb (i : ℕ) (e : RfbEvent)
  | timeout (id : ℕ)
  | visibilityChange (visible : Bool)
  | clickDisconnect
  deriving DecidableEq

namespace Page

def disconnectRfb (p : Page) : Page :=
  match p.rfb with
  | some i => { p with rfbs := p.rfbs.modify i fun r => r.disconnect.1 }
  | none => p

def startVNC (p : Page) : Page :=
  let p := p.disconnectRfb
  { p with rfbs := p.rfbs ++ [.new], rfb := some p.rfbs.length }

def boot : Page := startVNC ⟨[], none, false, 0, none, [], 1, []⟩

def delay (attempt : ℕ) : ℕ := min (1000 * 2 ^ (attempt - 1)) 15000

def scheduleReconnect (p : Page) : Page :=
  if p.userDisconnected then p
  else if p.reconnectTimer.isSome then p
  else { p with
    reconnectAttempt := p.reconnectAttempt + 1
    reconnectTimer := some p.nextTimeout
    timeouts := p.timeouts ++ [p.nextTimeout]
    nextTimeout := p.nextTimeout + 1
    notes := p.notes ++ [.delay (delay (p.reconnectAttempt + 1))] }

/-- The handlers that `startVNC` adds to its RFB object. -/
def onSignal (p : Page) : RfbSignal → Page
  | .connect => { p with reconnectAttempt := 0, notes := p.notes ++ [.connected] }
  | .disconnect => if p.userDisconnected then p else p.scheduleReconnect

def clearTimer (p : Page) : Page :=
  { p with timeouts := p.timeouts.filter (some · ≠ p.reconnectTimer), reconnectTimer := none }

def step (p : Page) : PageEvent → Page
  | .rfb i e =>
    match p.rfbs[i]? with
    | some r =>
      let a := r.step e
      a.2.foldl onSignal { p with rfbs := p.rfbs.set i a.1 }
    | none => p
  | .timeout id =>
    if id ∈ p.timeouts then
      startVNC { p with timeouts := p.timeouts.erase id, reconnectTimer := none }
    else p
  | .visibilityChange visible =>
    if visible && !p.userDisconnected && p.reconnectTimer.isSome then p.clearTimer.startVNC else p
  | .clickDisconnect =>
    let p := { p with userDisconnected := true }
    (if p.reconnectTimer.isSome then p.clearTimer else p).disconnectRfb

/-- The delays since the last connection in a history of the page. -/
def delaysSince (notes : List PageNote) : ℕ := (notes.rtakeWhile (· ≠ .connected)).length

/-- What the controller promises of a state: at most one RFB object is not gone for good; the page
has one, and while the user has not pressed Disconnect, its timer once it is lost; behind that
there is no timer; and the k-th delay since the last connection is the doubled one, up to fifteen
seconds. -/
structure Controlled (p : Page) : Prop where
  single : p.rfbs.countP (·.state ≠ .disconnected) ≤ 1
  own : ∃ i r, p.rfb = some i ∧ p.rfbs[i]? = some r
  pending : p.userDisconnected = false → ∀ i r, p.rfb = some i → p.rfbs[i]? = some r →
    r.state = .disconnected → ∃ id, p.reconnectTimer = some id ∧ id ∈ p.timeouts
  stopped : p.userDisconnected = true → p.timeouts = [] ∧ p.reconnectTimer = none
  delays : ∀ pre ms, pre ++ [.delay ms] <+: p.notes →
    ms = min (1000 * 2 ^ (delaysSince (pre ++ [.delay ms]) - 1)) 15000

end Page

namespace Rfb

variable {r r' : Rfb} {e : RfbEvent} {a : Rfb × List RfbSignal}

inductive Move (r : Rfb) : Rfb × List RfbSignal → Prop
  | quiet {r' : Rfb} (h : r'.state = .disconnected ↔ r.state = .disconnected) : Move r (r', [])
  | connects {r' : Rfb} (h : r.state ≠ .disconnected) (h' : r'.state ≠ .disconnected) :
      Move r (r', [.connect])
  | disconnects {r' : Rfb} (h : r.state ≠ .disconnected) (h' : r'.state = .disconnected) :
      Move r (r', [.disconnect])

theorem update_of_not_allowed {state : ConnectionState} (h : allowed r.state state = false) :
    r.updateConnectionState state = (r, []) := by
  unfold updateConnectionState
  exact if_neg (by simp [h])

def signals : ConnectionState → List RfbSignal
  | .connected => [.connect]
  | .disconnected => [.disconnect]
  | _ => []

theorem update_of_allowed {state : ConnectionState} (h : allowed r.state state = true) :
    ∃ r', r.updateConnectionState state = (r', signals state) ∧ r'.state = state := by
  unfold updateConnectionState
  rw [if_pos h]
  cases state <;> exact ⟨_, rfl, rfl⟩

theorem update_disconnecting (h : r.state = .connecting ∨ r.state = .connected) :
    ∃ r', r.updateConnectionState .disconnecting = (r', []) ∧ r'.state = .disconnecting := by
  apply update_of_allowed
  rcases h with h | h <;> rw [h] <;> rfl

theorem update_disconnected (h : r.state = .disconnecting) :
    ∃ r', r.updateConnectionState .disconnected = (r', [.disconnect]) ∧
      r'.state = .disconnected := by
  apply update_of_allowed
  rw [h]
  rfl

/-- A failure ends every connection that has not ended. -/
theorem fail_eq (h : r.state ≠ .disconnected) :
    ∃ r', r.fail = (r', [.disconnect]) ∧ r'.state = .disconnected := by
  have hfirst : ∃ r', r.updateConnectionState .disconnecting = (r', []) ∧
      r'.state = .disconnecting := by
    cases hr : r.state with
    | connecting => exact update_disconnecting (.inl hr)
    | connected => exact update_disconnecting (.inr hr)
    | disconnecting => exact ⟨r, update_of_not_allowed (by rw [hr]; rfl), hr⟩
    | disconnected => exact absurd hr h
  obtain ⟨r₁, hr₁, hs₁⟩ := hfirst
  obtain ⟨r₂, hr₂, hs₂⟩ := update_disconnected hs₁
  exact ⟨r₂, by simp [fail, updateTwice, hr₁, hr₂], hs₂⟩

theorem fail_of_disconnected (h : r.state = .disconnected) : r.fail = (r, []) := by
  have hstay : ∀ state, r.updateConnectionState state = (r, []) := fun state =>
    update_of_not_allowed (by rw [h]; cases state <;> rfl)
  simp [fail, updateTwice, hstay]

theorem disconnect_eq (r : Rfb) : ∃ r', r.disconnect = (r', []) ∧
    (r'.state = .disconnected ↔ r.state = .disconnected) := by
  cases hr : r.state with
  | connecting =>
    obtain ⟨r', hr', hs'⟩ := update_disconnecting (.inl hr)
    exact ⟨r', hr', by simp [hs']⟩
  | connected =>
    obtain ⟨r', hr', hs'⟩ := update_disconnecting (.inr hr)
    exact ⟨r', hr', by simp [hs']⟩
  | disconnecting => exact ⟨r, update_of_not_allowed (by rw [hr]; rfl), by simp [hr]⟩
  | disconnected => exact ⟨r, update_of_not_allowed (by rw [hr]; rfl), by simp [hr]⟩

theorem fail_move (r : Rfb) : Move r r.fail := by
  by_cases h : r.state = .disconnected
  · rw [fail_of_disconnected h]
    exact .quiet Iff.rfl
  · obtain ⟨r', hr', hs'⟩ := fail_eq h
    rw [hr']
    exact .disconnects h hs'

theorem update_disconnected_move (r : Rfb) : Move r (r.updateConnectionState .disconnected) := by
  by_cases h : r.state = .disconnecting
  · obtain ⟨r', hr', hs'⟩ := update_disconnected h
    rw [hr']
    exact .disconnects (by simp [h]) hs'
  · rw [update_of_not_allowed (by cases hr : r.state <;> first | rfl | exact absurd hr h)]
    exact .quiet Iff.rfl

theorem Move.closed {a : Rfb × List RfbSignal} (h : Move r a) :
    Move r ({ a.1 with closeHandler := false }, a.2) := by
  cases h with
  | quiet h => exact .quiet h
  | connects h h' => exact .connects h h'
  | disconnects h h' => exact .disconnects h h'

theorem step_move (r : Rfb) (e : RfbEvent) : Move r (r.step e) := by
  cases e with
  | serverInit =>
    by_cases h : r.state = .connecting
    · have hallowed : allowed r.state .connected = true := by rw [h]; rfl
      obtain ⟨r', hr', hs'⟩ := update_of_allowed hallowed
      rw [step, hr', signals]
      exact .connects (by simp [h]) (by simp [hs'])
    · rw [step, update_of_not_allowed (by cases hr : r.state <;> first | rfl | exact absurd hr h)]
      exact .quiet Iff.rfl
  | fail => exact fail_move r
  | socketClose =>
    simp only [step, socketClose]
    split_ifs
    · split
      · exact (fail_move r).closed
      · exact (fail_move r).closed
      · exact (update_disconnected_move r).closed
      · exact (fail_move r).closed
    · exact .quiet Iff.rfl
  | disconnTimeout =>
    unfold step
    dsimp only
    split_ifs
    · exact update_disconnected_move r
    · exact .quiet Iff.rfl

end Rfb

namespace Page

variable {p : Page} {e : PageEvent} {r r' : Rfb} {old : List Rfb} {notes : List PageNote}

/-! ### The delays -/

theorem delaysSince_connected (notes : List PageNote) :
    delaysSince (notes ++ [.connected]) = 0 := by
  simp [delaysSince]

theorem delaysSince_delay (notes : List PageNote) (ms : ℕ) :
    delaysSince (notes ++ [.delay ms]) = delaysSince notes + 1 := by
  simp [delaysSince]

def Doubled (notes : List PageNote) : Prop :=
  ∀ pre ms, pre ++ [.delay ms] <+: notes →
    ms = min (1000 * 2 ^ (delaysSince (pre ++ [.delay ms]) - 1)) 15000

theorem doubled_concat {note : PageNote} (h : Doubled notes)
    (hnote : ∀ ms, note = .delay ms → ms = min (1000 * 2 ^ delaysSince notes) 15000) :
    Doubled (notes ++ [note]) := by
  intro pre ms hp
  rcases List.prefix_concat_iff.mp hp with heq | hp
  · obtain ⟨rfl, hlast⟩ := List.append_inj' heq rfl
    obtain rfl : note = .delay ms := (List.cons.inj hlast).1.symm
    rw [delaysSince_delay, Nat.add_sub_cancel]
    exact hnote ms rfl
  · exact h pre ms hp

/-! ### The states of the controller -/

/-- The page has made at least one RFB object, the last one is its own and `r`, and the others are
gone for good. -/
structure Holds (p : Page) (old : List Rfb) (r : Rfb) : Prop where
  rfbs : p.rfbs = old ++ [r]
  own : p.rfb = some old.length
  gone : ∀ x ∈ old, x.state = .disconnected

/-- The browser runs the page's timer and no other, and it runs exactly while the connection is
lost and the user has not pressed Disconnect. -/
structure Timed (p : Page) (r : Rfb) : Prop where
  timeouts : p.timeouts = p.reconnectTimer.toList
  waits : p.reconnectTimer.isSome ↔ r.state = .disconnected ∧ p.userDisconnected = false
  counted : p.reconnectAttempt = delaysSince p.notes
  doubled : Doubled p.notes

def Sound (p : Page) : Prop := ∃ old r, p.Holds old r ∧ p.Timed r

theorem Sound.controlled (h : p.Sound) : p.Controlled := by
  obtain ⟨old, r, hh, ht⟩ := h
  constructor
  · have hold : old.countP (·.state ≠ .disconnected) = 0 := by
      rw [List.countP_eq_zero]
      intro x hx
      simp [hh.gone x hx]
    rw [hh.rfbs, List.countP_append, hold, Nat.zero_add]
    exact List.countP_le_length
  · exact ⟨old.length, r, hh.own, by rw [hh.rfbs, List.getElem?_concat_length]⟩
  · intro huser i r' hi hr' hdown
    obtain rfl : old.length = i := Option.some.inj (hh.own.symm.trans hi)
    rw [hh.rfbs, List.getElem?_concat_length] at hr'
    obtain rfl := Option.some.inj hr'
    obtain ⟨id, hid⟩ := Option.isSome_iff_exists.mp (ht.waits.mpr ⟨hdown, huser⟩)
    exact ⟨id, hid, by rw [ht.timeouts, hid]; exact List.mem_singleton_self id⟩
  · intro huser
    have hnone : p.reconnectTimer = none := by
      rw [← Option.not_isSome_iff_eq_none, ht.waits]
      simp [huser]
    exact ⟨by rw [ht.timeouts, hnone]; rfl, hnone⟩
  · exact ht.doubled

theorem modify_last (f : Rfb → Rfb) (old : List Rfb) (r : Rfb) :
    (old ++ [r]).modify old.length f = old ++ [f r] := by
  induction old with
  | nil => rfl
  | cons x old ih => simpa using ih

theorem Holds.disconnectRfb (hh : p.Holds old r) : p.disconnectRfb.Holds old r.disconnect.1 := by
  have heq : p.disconnectRfb = { p with rfbs := old ++ [r.disconnect.1] } := by
    unfold Page.disconnectRfb
    rw [hh.own, hh.rfbs]
    dsimp only
    rw [modify_last]
  rw [heq]
  exact ⟨rfl, hh.own, hh.gone⟩

theorem Timed.disconnectRfb (ht : p.Timed r)
    (h : r'.state = .disconnected ↔ r.state = .disconnected) :
    p.disconnectRfb.Timed r' := by
  have hsame : p.disconnectRfb = { p with rfbs := p.disconnectRfb.rfbs } := by
    unfold Page.disconnectRfb
    split <;> rfl
  rw [hsame]
  exact ⟨ht.timeouts, ht.waits.trans (and_congr_left' h.symm), ht.counted, ht.doubled⟩

/-- The page with its RFB object replaced, and with no timer left. -/
theorem Holds.startVNC (hh : p.Holds old r) (hdown : r.state = .disconnected)
    (hnone : p.reconnectTimer = none) (htimeouts : p.timeouts = [])
    (hcount : p.reconnectAttempt = delaysSince p.notes) (hdelay : Doubled p.notes) :
    p.startVNC.Sound := by
  obtain ⟨r', hr', hs'⟩ := r.disconnect_eq
  have hd := hh.disconnectRfb
  rw [hr'] at hd
  have hsame : p.disconnectRfb = { p with rfbs := old ++ [r'] } := by
    rw [← hd.rfbs]
    unfold Page.disconnectRfb
    split <;> rfl
  unfold Page.startVNC
  rw [hsame]
  refine ⟨old ++ [r'], .new, ⟨rfl, rfl, ?_⟩, ⟨?_, ?_, hcount, hdelay⟩⟩
  · intro x hx
    rcases List.mem_append.mp hx with hx | hx
    · exact hh.gone x hx
    · obtain rfl := List.mem_singleton.mp hx
      exact hs'.mpr hdown
  · change p.timeouts = p.reconnectTimer.toList
    rw [htimeouts, hnone]
    rfl
  · change p.reconnectTimer.isSome ↔ _
    rw [hnone]
    simp [Rfb.new]

theorem sound_boot : boot.Sound :=
  ⟨[], .new, ⟨rfl, rfl, by simp⟩, ⟨rfl, by simp [boot, startVNC, disconnectRfb, Rfb.new], rfl,
    fun pre ms hp => by simp [boot, startVNC, disconnectRfb] at hp⟩⟩

/-- An RFB object that was replaced has nothing more to say. -/
theorem Holds.stale (hh : p.Holds old r) (ht : p.Timed r) {i : ℕ} (hi : i < old.length)
    (e : RfbEvent) : (p.step (.rfb i e)).Sound := by
  have hget : p.rfbs[i]? = some old[i] := by
    rw [hh.rfbs, List.getElem?_append_left hi, List.getElem?_eq_getElem hi]
  have hgone := hh.gone _ (List.getElem_mem hi)
  simp only [step, hget]
  cases hm : old[i].step e with
  | mk x sig =>
    have hmove := old[i].step_move e
    rw [hm] at hmove
    cases hmove with
    | quiet h =>
      have ht' : Timed { p with rfbs := p.rfbs.set i x } r := ⟨ht.timeouts, ht.waits, ht.counted,
        ht.doubled⟩
      refine ⟨old.set i x, r, ⟨?_, ?_, ?_⟩, ht'⟩
      · simp [hh.rfbs, List.set_append_left _ _ hi]
      · simpa using hh.own
      · intro y hy
        rcases List.mem_or_eq_of_mem_set hy with hy | rfl
        · exact hh.gone y hy
        · exact h.mpr hgone
    | connects h => exact absurd hgone h
    | disconnects h => exact absurd hgone h

theorem Holds.current (hh : p.Holds old r) (ht : p.Timed r) (e : RfbEvent) :
    (p.step (.rfb old.length e)).Sound := by
  have hget : p.rfbs[old.length]? = some r := by rw [hh.rfbs, List.getElem?_concat_length]
  have hset : ∀ r' : Rfb, p.rfbs.set old.length r' = old ++ [r'] := fun r' => by simp [hh.rfbs]
  have hidle : r.state ≠ .disconnected → p.reconnectTimer = none := fun hne => by
    rw [← Option.not_isSome_iff_eq_none, ht.waits]
    exact fun h => hne h.1
  simp only [step, hget]
  cases hm : r.step e with
  | mk r' sig =>
    have hmove := r.step_move e
    rw [hm] at hmove
    simp only [hset]
    cases hmove with
    | quiet h =>
      refine ⟨old, r', ⟨rfl, hh.own, hh.gone⟩, ⟨ht.timeouts, ?_, ht.counted, ht.doubled⟩⟩
      exact ht.waits.trans (and_congr_left' h.symm)
    | connects h h' =>
      refine ⟨old, r', ⟨rfl, hh.own, hh.gone⟩, ⟨ht.timeouts, ?_, ?_, ?_⟩⟩
      · exact ht.waits.trans (iff_of_false (fun hr => h hr.1) fun hr => h' hr.1)
      · exact (delaysSince_connected _).symm
      · exact doubled_concat ht.doubled fun _ hnote => by cases hnote
    | disconnects h h' =>
      have hnone := hidle h
      simp only [List.foldl_cons, List.foldl_nil, onSignal, scheduleReconnect]
      split_ifs with huser htimer
      · refine ⟨old, r', ⟨rfl, hh.own, hh.gone⟩, ⟨ht.timeouts, ?_, ht.counted, ht.doubled⟩⟩
        change p.reconnectTimer.isSome ↔ _
        simp [hnone, huser]
      · rw [hnone] at htimer
        cases htimer
      · refine ⟨old, r', ⟨rfl, hh.own, hh.gone⟩, ⟨?_, ?_, ?_, ?_⟩⟩
        · change p.timeouts ++ [p.nextTimeout] = [p.nextTimeout]
          rw [ht.timeouts, hnone]
          rfl
        · exact iff_of_true rfl ⟨h', by simpa using huser⟩
        · change p.reconnectAttempt + 1 = _
          rw [delaysSince_delay, ht.counted]
        · refine doubled_concat ht.doubled fun ms hms => ?_
          obtain rfl := PageNote.delay.inj hms
          rw [ht.counted, delay, Nat.add_sub_cancel]

theorem Timed.cleared (ht : p.Timed r) : p.timeouts.filter (some · ≠ p.reconnectTimer) = [] := by
  rw [ht.timeouts]
  cases p.reconnectTimer <;> simp

theorem Holds.retry (hh : p.Holds old r) (ht : p.Timed r) {timeouts : List ℕ}
    (hsome : p.reconnectTimer.isSome) (hempty : timeouts = []) :
    (Page.startVNC { p with timeouts := timeouts, reconnectTimer := none }).Sound := by
  have hh' : ({ p with timeouts := timeouts, reconnectTimer := none } : Page).Holds old r :=
    ⟨hh.rfbs, hh.own, hh.gone⟩
  exact hh'.startVNC (ht.waits.mp hsome).1 rfl hempty ht.counted ht.doubled

theorem Sound.step (h : p.Sound) : (p.step e).Sound := by
  obtain ⟨old, r, hh, ht⟩ := h
  cases e with
  | rfb i e =>
    rcases Nat.lt_trichotomy i old.length with hi | rfl | hi
    · exact hh.stale ht hi e
    · exact hh.current ht e
    · have hget : p.rfbs[i]? = none := by
        rw [hh.rfbs]
        exact List.getElem?_eq_none (by simpa using Nat.succ_le_of_lt hi)
      simp only [Page.step, hget]
      exact ⟨old, r, hh, ht⟩
  | timeout id =>
    unfold Page.step
    dsimp only
    split_ifs with hid
    · rw [ht.timeouts, Option.mem_toList] at hid
      refine hh.retry ht (Option.isSome_of_mem hid) ?_
      rw [ht.timeouts, Option.mem_def.mp hid]
      simp
    · exact ⟨old, r, hh, ht⟩
  | visibilityChange visible =>
    unfold Page.step
    dsimp only
    split_ifs with hv
    · simp only [Bool.and_eq_true] at hv
      exact hh.retry ht hv.2 ht.cleared
    · exact ⟨old, r, hh, ht⟩
  | clickDisconnect =>
    obtain ⟨r', hr', hs'⟩ := r.disconnect_eq
    have hcleared : p.step .clickDisconnect =
        ({ p with userDisconnected := true, timeouts := [], reconnectTimer := none } :
          Page).disconnectRfb := by
      simp only [Page.step, clearTimer]
      split_ifs with htimer
      · rw [ht.cleared]
      · rw [Bool.not_eq_true, Option.isSome_eq_false_iff, Option.isNone_iff_eq_none] at htimer
        congr 1
        have htimeouts : p.timeouts = [] := by rw [ht.timeouts, htimer]; rfl
        rw [← htimeouts, ← htimer]
    have hd : ({ p with userDisconnected := true, timeouts := [], reconnectTimer := none } :
        Page).Holds old r := ⟨hh.rfbs, hh.own, hh.gone⟩
    have ht' : ({ p with userDisconnected := true, timeouts := [], reconnectTimer := none } :
        Page).Timed r := ⟨rfl, by simp, ht.counted, ht.doubled⟩
    have hd' := hd.disconnectRfb
    rw [hr'] at hd'
    rw [hcleared]
    exact ⟨old, r', hd', ht'.disconnectRfb hs'⟩

/-- A page that the user has disconnected makes no RFB object. -/
theorem step_disconnected (h : p.Sound) (huser : p.userDisconnected = true) :
    (p.step e).userDisconnected = true ∧ (p.step e).rfbs.length = p.rfbs.length := by
  have hd : ∀ q : Page, q.disconnectRfb.userDisconnected = q.userDisconnected ∧
      q.disconnectRfb.rfbs.length = q.rfbs.length := by
    intro q
    unfold Page.disconnectRfb
    split
    · exact ⟨rfl, List.length_modify _ _ _⟩
    · exact ⟨rfl, rfl⟩
  have hstopped := h.controlled.stopped huser
  cases e with
  | rfb i e =>
    unfold step
    dsimp only
    split
    · rename_i r hr
      have hsignals : ∀ (sig : List RfbSignal) (q : Page), q.userDisconnected = true →
          (sig.foldl onSignal q).userDisconnected = true ∧
            (sig.foldl onSignal q).rfbs.length = q.rfbs.length := by
        intro sig
        induction sig with
        | nil => exact fun q hq => ⟨hq, rfl⟩
        | cons s sig ih =>
          intro q hq
          cases s with
          | connect => exact ih _ hq
          | disconnect => simpa [onSignal, hq] using ih q hq
      obtain ⟨hu, hl⟩ := hsignals (r.step e).2 { p with rfbs := p.rfbs.set i (r.step e).1 } huser
      exact ⟨hu, hl.trans (List.length_set ..)⟩
    · exact ⟨huser, rfl⟩
  | timeout id =>
    have hnot : id ∉ p.timeouts := by simp [hstopped.1]
    rw [step, if_neg hnot]
    exact ⟨huser, rfl⟩
  | visibilityChange visible =>
    simp only [step, huser, Bool.not_true, Bool.and_false, Bool.false_and, Bool.false_eq_true,
      if_false, and_self]
  | clickDisconnect =>
    unfold step
    dsimp only
    split_ifs
    · exact ⟨(hd _).1, (hd _).2⟩
    · exact ⟨(hd _).1, (hd _).2⟩

/-- The reconnect controller, for every order of events. -/
theorem reconnect_controlled (es : List PageEvent) :
    Transition.Always step Controlled boot es ∧
      ∀ pre post, es = pre ++ post → (Transition.run step boot pre).userDisconnected = true →
        (Transition.run step boot es).rfbs.length = (Transition.run step boot pre).rfbs.length := by
  have hsound : ∀ pre, (Transition.run step boot pre).Sound := fun pre =>
    Transition.run_invariant (fun _ _ h => h.step) sound_boot pre
  refine ⟨fun pre _ => (hsound pre).controlled, ?_⟩
  rintro pre post rfl huser
  rw [Transition.run_append]
  have hstep : ∀ n (q : Page) e, q.Sound ∧ q.userDisconnected = true ∧ q.rfbs.length = n →
      (q.step e).Sound ∧ (q.step e).userDisconnected = true ∧ (q.step e).rfbs.length = n := by
    rintro n q e ⟨hq, hu, hl⟩
    obtain ⟨hu', hl'⟩ := step_disconnected (e := e) hq hu
    exact ⟨hq.step, hu', hl'.trans hl⟩
  exact (Transition.run_invariant (hstep _) ⟨hsound pre, huser, rfl⟩ post).2.2

end Page

end Urc
