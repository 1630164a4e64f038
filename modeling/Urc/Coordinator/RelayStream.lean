import Urc.Coordinator.RelayOrder

/-! # The byte stream between two legs

A frame that the loop takes up while the peer slot is empty is dropped, and nothing keeps
it for a peer that attaches later. So the stream has no gap exactly when each leg attaches
before the opposite leg takes up its first data frame.
-/

namespace Urc

def dataOf (ms : List Message) : List Message := ms.filter Message.isData

@[simp] theorem dataOf_nil : dataOf [] = [] := rfl
@[simp] theorem dataOf_append (ms ms' : List Message) :
    dataOf (ms ++ ms') = dataOf ms ++ dataOf ms' := List.filter_append ..

def Leg.dataSent (leg : Leg) : List Message := dataOf (leg.outgoing.map (·.frame))

/-- The data that a leg holds for leg `c`, looked up but not yet sent. -/
def LegPc.heldFor (pc : LegPc) (c : LegId) : List Message :=
  match pc with
  | .sending m (some d) => if d = c then dataOf [m] else []
  | _ => []

namespace Relay

variable {n n' : Relay} {e : RelayEvent} {a c : LegId}

/-- The two legs of a session, one of each role. -/
def Opposite (n : Relay) (a c : LegId) : Prop :=
  (n.legs a).pc ≠ .unopened ∧ (n.legs c).pc ≠ .unopened ∧
    (n.legs a).id = (n.legs c).id ∧ (n.legs a).isAgent = !(n.legs c).isAgent

theorem Opposite.symm (h : Opposite n a c) : Opposite n c a :=
  ⟨h.2.1, h.1, h.2.2.1.symm, by simp [h.2.2.2]⟩

/--
The stream from `a` to `c` has no gap: what `c` was handed is a prefix of what `a` took up while
the session existed, and nothing that `a` took up is missing once `c` is attached.
-/
structure GapFree (n : Relay) : Prop where
  received : ∀ a, (n.legs a).taken <+: (n.legs a).received
  sent : ∀ a c, Opposite n a c → (n.legs c).dataSent <+: dataOf (n.legs a).taken
  whole : ∀ a c s, Opposite n a c → n.hub.sessions.lookup (n.legs c).id = some s →
    s.tx (n.legs c).isAgent = some c → (n.legs c).rxOpen = true →
      (n.legs c).dataSent ++ (n.legs a).pc.heldFor c = dataOf (n.legs a).taken

/-- Each role of a session is taken by one leg. -/
def OneLegPerRole (n : Relay) : RelayEvent → Prop
  | .leg (.opened l id r) => (n.legs l).pc = .unopened → ∀ l', (n.legs l').pc ≠ .unopened →
      (n.legs l').id = id → (n.legs l').isAgent ≠ r
  | _ => True

/-- A leg that attaches to an existing session finds that its peer has taken up no data yet. -/
def AttachedFirst (n : Relay) : RelayEvent → Prop
  | .leg (.step c) => (n.legs c).pc = .attaching →
      (n.hub.sessions.lookup (n.legs c).id).isSome →
        ∀ a, Opposite n a c → dataOf (n.legs a).taken = []
  | _ => True

/-- The invariant behind a gap-free stream. -/
structure Streaming (n : Relay) : Prop where
  fresh : ∀ l, (n.legs l).pc = .unopened ∨ (n.legs l).pc = .attaching →
    (n.legs l).found = false ∧ (n.legs l).taken = [] ∧
      ((n.legs l).pc = .attaching → (n.legs l).rxOpen = true)
  one : ∀ l l', (n.legs l).pc ≠ .unopened → (n.legs l').pc ≠ .unopened →
    (n.legs l).id = (n.legs l').id → (n.legs l).isAgent = (n.legs l').isAgent → l = l'
  created : ∀ l, (n.legs l).found = true → (n.legs l).id ∈ n.created
  hand : ∀ l m d, (n.legs l).pc = .sending m (some d) → (n.legs d).found = true
  slot : ∀ id s r l, n.hub.sessions.lookup id = some s → s.tx r = some l →
    (n.legs l).found = true
  stored : ∀ l s, (n.legs l).found = true → n.hub.sessions.lookup (n.legs l).id = some s →
    s.tx (n.legs l).isAgent = some l
  unfound : ∀ l, (n.legs l).found = false → (n.legs l).dataSent = []
  full : ∀ a c, Opposite n a c → (n.legs c).found = true → (n.legs c).rxOpen = true →
    (n.legs c).dataSent ++ (n.legs a).pc.heldFor c = dataOf (n.legs a).taken
  pre : ∀ a c, Opposite n a c → (n.legs c).dataSent <+: dataOf (n.legs a).taken

theorem streaming_new : Streaming .new := by
  constructor <;> simp [new, Leg.unopened, RelayHub.new, Opposite, Leg.dataSent]

theorem Streaming.gapFree (h : Streaming n) (hn : Sound n) : GapFree n where
  received a := (hn.logged a).taken_le
  sent := h.pre
  whole a c _ ho hs ht hrx := h.full a c ho (h.slot _ _ _ _ hs ht) hrx

structure Settled (legs legs' : LegId → Leg) : Prop where
  opened : ∀ l, (legs' l).pc ≠ .unopened → (legs l).pc ≠ .unopened
  ident : ∀ l, (legs' l).id = (legs l).id ∧ (legs' l).isAgent = (legs l).isAgent

theorem Settled.opposite (q : Settled n.legs n'.legs) (ho : Opposite n' a c) : Opposite n a c := by
  obtain ⟨ha, hc, hid, hrole⟩ := ho
  rw [(q.ident a).1, (q.ident c).1] at hid
  rw [(q.ident a).2, (q.ident c).2] at hrole
  exact ⟨q.opened a ha, q.opened c hc, hid, hrole⟩

theorem Settled.named (q : Settled n.legs n'.legs) {l : LegId} (hl : (n'.legs l).pc ≠ .unopened) :
    (n.legs l).pc ≠ .unopened ∧ (n'.legs l).id = (n.legs l).id ∧
      (n'.legs l).isAgent = (n.legs l).isAgent := ⟨q.opened l hl, q.ident l⟩

theorem Streaming.one_of (h : Streaming n) (q : Settled n.legs n'.legs) : ∀ l l',
    (n'.legs l).pc ≠ .unopened → (n'.legs l').pc ≠ .unopened → (n'.legs l).id = (n'.legs l').id →
      (n'.legs l).isAgent = (n'.legs l').isAgent → l = l' := by
  intro l l' hl hl' hid hrole
  rw [(q.ident l).1, (q.ident l').1] at hid
  rw [(q.ident l).2, (q.ident l').2] at hrole
  exact h.one l l' (q.opened l hl) (q.opened l' hl') hid hrole

theorem settled_setLeg {l : LegId} {leg : Leg} (hid : leg.id = (n.legs l).id)
    (hr : leg.isAgent = (n.legs l).isAgent) (hu : (n.legs l).pc ≠ .unopened) :
    Settled n.legs (n.setLeg l leg).legs := by
  constructor
  · intro d
    rw [setLeg_legs]
    split_ifs with hd
    · exact fun _ => hd ▸ hu
    · exact id
  · intro d
    rw [setLeg_legs]
    split_ifs with hd
    · rw [hd]
      exact ⟨hid, hr⟩
    · exact ⟨rfl, rfl⟩

theorem settled_forward {l d : LegId} {m : Message} (hpc : (n.legs l).pc = .sending m (some d)) :
    Settled n.legs ((n.push d (n.lastSent l m)).setLeg l
      { (n.push d (n.lastSent l m)).legs l with pc := .reading }).legs := by
  constructor
  · intro a
    rw [setLeg_legs]
    split_ifs with ha
    · exact fun _ => by simp [ha, hpc]
    · simp
  · intro a
    rw [setLeg_legs]
    split_ifs with ha
    · simp [ha]
    · simp

/-- What a move that takes up no frame and hands out no data leaves of the streams. -/
structure Still (n n' : Relay) : Prop where
  hub : ∀ id s, n'.hub.sessions.lookup id = some s → n.hub.sessions.lookup id = some s
  created : ∀ id ∈ n.created, id ∈ n'.created
  ident : ∀ l, (n'.legs l).id = (n.legs l).id ∧ (n'.legs l).isAgent = (n.legs l).isAgent ∧
    (n'.legs l).found = (n.legs l).found
  opened : ∀ l, (n'.legs l).pc = .unopened ↔ (n.legs l).pc = .unopened
  attaching : ∀ l, (n'.legs l).pc = .attaching → n'.legs l = n.legs l
  hand : ∀ l m d, (n'.legs l).pc = .sending m (some d) → (n.legs l).pc = .sending m (some d)
  held : ∀ l c, (n'.legs l).pc.heldFor c = (n.legs l).pc.heldFor c
  stream : ∀ l, (n'.legs l).dataSent = (n.legs l).dataSent ∧
    (n'.legs l).taken = (n.legs l).taken
  rxOpen : ∀ l, (n'.legs l).rxOpen = true → (n.legs l).rxOpen = true

theorem Still.settled (q : Still n n') : Settled n.legs n'.legs where
  opened l := mt (q.opened l).mpr
  ident l := ⟨(q.ident l).1, (q.ident l).2.1⟩

theorem Streaming.still (h : Streaming n) (q : Still n n') : Streaming n' := by
  constructor
  case fresh =>
    intro l hl
    rcases hl with hl | hl
    · obtain ⟨hf, ht, -⟩ := h.fresh l (.inl ((q.opened l).mp hl))
      exact ⟨by rw [(q.ident l).2.2, hf], by rw [(q.stream l).2, ht], by simp [hl]⟩
    · have he := q.attaching l hl
      rw [he] at hl ⊢
      exact h.fresh l (.inr hl)
  case one => exact h.one_of q.settled
  case created =>
    intro l hl
    rw [(q.ident l).2.2] at hl
    rw [(q.ident l).1]
    exact q.created _ (h.created l hl)
  case hand =>
    intro l m d hpc
    rw [(q.ident d).2.2]
    exact h.hand l m d (q.hand l m d hpc)
  case slot =>
    intro id s r l hs ht
    rw [(q.ident l).2.2]
    exact h.slot id s r l (q.hub id s hs) ht
  case stored =>
    intro l s hf hs
    rw [(q.ident l).2.2] at hf
    rw [(q.ident l).1] at hs
    rw [(q.ident l).2.1]
    exact h.stored l s hf (q.hub _ s hs)
  case unfound =>
    intro l hf
    rw [(q.ident l).2.2] at hf
    rw [(q.stream l).1]
    exact h.unfound l hf
  case full =>
    intro a c ho hf hrx
    rw [(q.ident c).2.2] at hf
    rw [(q.stream c).1, (q.stream a).2, q.held]
    exact h.full a c (q.settled.opposite ho) hf (q.rxOpen c hrx)
  case pre =>
    intro a c ho
    rw [(q.stream c).1, (q.stream a).2]
    exact h.pre a c (q.settled.opposite ho)

theorem Still.trans {n₁ n₂ : Relay} (q : Still n n₁) (q' : Still n₁ n₂) : Still n n₂ where
  hub id s hs := q.hub id s (q'.hub id s hs)
  created id hid := q'.created id (q.created id hid)
  ident l := by simp only [q'.ident, q.ident, and_self]
  opened l := (q'.opened l).trans (q.opened l)
  attaching l hl := by
    have he := q'.attaching l hl
    rw [he]
    exact q.attaching l (he ▸ hl)
  hand l m d hl := q.hand l m d (q'.hand l m d hl)
  held l c := (q'.held l c).trans (q.held l c)
  stream l := by simp only [q'.stream, q.stream, and_self]
  rxOpen l hl := q.rxOpen l (q'.rxOpen l hl)

theorem still_hub {hub : RelayHub} {removed : List Uuid}
    (h : ∀ id s, hub.sessions.lookup id = some s → n.hub.sessions.lookup id = some s) :
    Still n { n with hub := hub, removed := removed } := by
  refine ⟨h, ?_, ?_, ?_, ?_, ?_, ?_, ?_, ?_⟩ <;> simp

theorem still_setLeg {l : LegId} {leg : Leg} (hid : leg.id = (n.legs l).id)
    (hr : leg.isAgent = (n.legs l).isAgent) (hf : leg.found = (n.legs l).found)
    (hu : leg.pc ≠ .unopened) (hu' : (n.legs l).pc ≠ .unopened) (ha : leg.pc ≠ .attaching)
    (hh : ∀ m d, leg.pc = .sending m (some d) → (n.legs l).pc = .sending m (some d))
    (hh' : ∀ c, leg.pc.heldFor c = (n.legs l).pc.heldFor c)
    (hs : leg.outgoing = (n.legs l).outgoing) (ht : leg.taken = (n.legs l).taken)
    (hrx : leg.rxOpen = true → (n.legs l).rxOpen = true) : Still n (n.setLeg l leg) := by
  constructor
  case hub => exact fun _ _ h => h
  case created => exact fun _ h => h
  case hand =>
    intro l' m d
    rw [setLeg_legs]
    split_ifs with he
    · rw [he]; exact hh m d
    · exact id
  all_goals
    intro l'
    rw [setLeg_legs]
    by_cases he : l' = l
    · subst he; simp_all [Leg.dataSent]
    · simp [he]

theorem still_ping {l : LegId} (ha : (n.legs l).pc ≠ .attaching) :
    Still n (n.push l ⟨.keepalive, .ping []⟩) := by
  refine ⟨by simp, by simp, by simp, by simp, fun l' hl' => ?_, by simp, by simp,
    fun l' => ⟨?_, by simp⟩, by simp⟩
  · have hne : l' ≠ l := by rintro rfl; simp [ha] at hl'
    simp [push_legs, hne]
  · rw [Leg.dataSent, push_outgoing]
    split_ifs
    · simp [Leg.dataSent, dataOf, Message.isData]
    · rfl

/-- Data on the channel of a leg came from an opposite leg that is open. -/
theorem exists_source (hn : Sound n) (hc : (n.legs c).dataSent ≠ []) :
    ∃ src, Opposite n src c := by
  obtain ⟨m, hm⟩ := List.exists_mem_of_ne_nil _ hc
  obtain ⟨hm, hdata⟩ := List.mem_filter.mp hm
  obtain ⟨x, hx, rfl⟩ := List.mem_map.mp hm
  cases ho : x.origin with
  | keepalive => simp [hn.ledger.ping c x hx ho, Message.isData] at hdata
  | leg src k =>
    obtain ⟨hr, hid, hrole, -⟩ := hn.ledger.source c x hx src k ho
    refine ⟨src, fun hu => ?_, fun hu => ?_, hid, hrole⟩
    · simp [(hn.ledger.fresh src hu).1] at hr
    · simp [(hn.ledger.fresh c hu).2] at hx

theorem setLeg_found {l : LegId} {leg : Leg} (hf : leg.found = (n.legs l).found) (d : LegId) :
    ((n.setLeg l leg).legs d).found = (n.legs d).found := by
  rw [setLeg_legs]
  split_ifs with hd
  · rw [hd, hf]
  · rfl

/-- The relay where a leg has opened for a role of a session. -/
def opened (n : Relay) (l : LegId) (id : Uuid) (r : Bool) : Relay :=
  n.setLeg l ⟨id, r, .attaching, true, false, [], [], []⟩

/-- A leg that opens for a role nobody has taken meets peers that were handed nothing. -/
theorem handed_none (hn : Sound n) {l : LegId} {id : Uuid} {r : Bool}
    (hpc : (n.legs l).pc = .unopened) (hone : OneLegPerRole n (.leg (.opened l id r)))
    (hid : (n.legs c).id = id) (hrole : (n.legs c).isAgent = !r) : (n.legs c).dataSent = [] := by
  by_contra hne
  obtain ⟨src, hs, -, hid', hrole'⟩ := exists_source hn hne
  exact hone hpc src hs (hid'.trans hid) (by simp [hrole', hrole])

theorem Streaming.full_opened (h : Streaming n) (hn : Sound n) {l : LegId} {id : Uuid} {r : Bool}
    (hpc : (n.legs l).pc = .unopened) (hone : OneLegPerRole n (.leg (.opened l id r)))
    (ho : Opposite (n.opened l id r) a c) (hfc : ((n.opened l id r).legs c).found = true)
    (hrx : ((n.opened l id r).legs c).rxOpen = true) :
    ((n.opened l id r).legs c).dataSent ++ ((n.opened l id r).legs a).pc.heldFor c =
      dataOf ((n.opened l id r).legs a).taken := by
  obtain ⟨ha, hc, hid, hrole⟩ := ho
  rw [opened] at ha hc hid hrole hfc hrx ⊢
  have hcl : c ≠ l := by
    rintro rfl
    simp [setLeg_legs] at hfc
  rw [setLeg_legs n l c, if_neg hcl] at hc hid hrole hfc hrx ⊢
  rw [setLeg_legs n l a] at ha hid hrole ⊢
  split_ifs at ha hid hrole ⊢
  · have hr : r = !(n.legs c).isAgent := hrole
    rw [handed_none hn hpc hone hid.symm (by simp [hr])]
    rfl
  · exact h.full a c ⟨ha, hc, hid, hrole⟩ hfc hrx

theorem Streaming.pre_opened (h : Streaming n) (hn : Sound n) {l : LegId} {id : Uuid} {r : Bool}
    (hpc : (n.legs l).pc = .unopened) (hone : OneLegPerRole n (.leg (.opened l id r)))
    (ho : Opposite (n.opened l id r) a c) :
    ((n.opened l id r).legs c).dataSent <+: dataOf ((n.opened l id r).legs a).taken := by
  obtain ⟨ha, hc, hid, hrole⟩ := ho
  rw [opened] at ha hc hid hrole ⊢
  by_cases hcl : c = l
  · rw [hcl, setLeg_legs n l l, if_pos rfl]
    exact List.nil_prefix
  rw [setLeg_legs n l c, if_neg hcl] at hc hid hrole ⊢
  rw [setLeg_legs n l a] at ha hid hrole ⊢
  split_ifs at ha hid hrole ⊢
  · have hr : r = !(n.legs c).isAgent := hrole
    rw [handed_none hn hpc hone hid.symm (by simp [hr])]
    exact List.nil_prefix
  · exact h.pre a c ⟨ha, hc, hid, hrole⟩

theorem Streaming.one_opened (h : Streaming n) {l l₁ l₂ : LegId} {id : Uuid} {r : Bool}
    (hpc : (n.legs l).pc = .unopened) (hone : OneLegPerRole n (.leg (.opened l id r)))
    (h₁ : ((n.opened l id r).legs l₁).pc ≠ .unopened)
    (h₂ : ((n.opened l id r).legs l₂).pc ≠ .unopened)
    (hid : ((n.opened l id r).legs l₁).id = ((n.opened l id r).legs l₂).id)
    (hrole : ((n.opened l id r).legs l₁).isAgent = ((n.opened l id r).legs l₂).isAgent) :
    l₁ = l₂ := by
  rw [opened, setLeg_legs] at h₁ h₂
  rw [opened, setLeg_legs, setLeg_legs] at hid hrole
  split_ifs at h₁ h₂ hid hrole with hl₁ hl₂ hl₂
  · exact hl₁.trans hl₂.symm
  · exact absurd hrole.symm (hone hpc l₂ h₂ hid.symm)
  · exact absurd hrole (hone hpc l₁ h₁ hid)
  · exact h.one l₁ l₂ h₁ h₂ hid hrole

theorem Streaming.open (h : Streaming n) (hn : Sound n) {l : LegId} {id : Uuid} {r : Bool}
    (hpc : (n.legs l).pc = .unopened) (hone : OneLegPerRole n (.leg (.opened l id r))) :
    Streaming (n.opened l id r) := by
  have hf : (n.legs l).found = false := (h.fresh l (.inl hpc)).1
  constructor
  case fresh =>
    intro d
    rw [opened, setLeg_legs]
    split_ifs
    · simp
    · exact h.fresh d
  case one => exact fun _ _ => h.one_opened hpc hone
  case created =>
    intro d
    rw [opened, setLeg_legs]
    split_ifs
    · simp
    · exact h.created d
  case hand =>
    intro a m d ha
    rw [opened, setLeg_found (by simp [hf])]
    rw [opened, setLeg_legs] at ha
    split_ifs at ha
    exact h.hand a m d ha
  case slot =>
    intro id' s r' d hs ht
    rw [opened, setLeg_found (by simp [hf])]
    exact h.slot id' s r' d hs ht
  case stored =>
    intro d s hfd hs
    rw [opened] at hfd hs ⊢
    have hd : d ≠ l := by
      rintro rfl
      simp [setLeg_legs] at hfd
    rw [setLeg_legs, if_neg hd] at hfd hs ⊢
    exact h.stored d s hfd hs
  case unfound =>
    intro d
    rw [opened, setLeg_legs]
    split_ifs
    · exact fun _ => rfl
    · exact h.unfound d
  case full => exact fun _ _ => h.full_opened hn hpc hone
  case pre => exact fun _ _ => h.pre_opened hn hpc hone

theorem Streaming.unheld (h : Streaming n) {l : LegId} (hf : (n.legs l).found = false)
    (a : LegId) : (n.legs a).pc.heldFor l = [] := by
  unfold LegPc.heldFor
  split
  · rename_i m d hpa
    split_ifs with hd
    · simpa [hd, hf] using h.hand a m d hpa
    · rfl
  · rfl

/-- What an attach to a session leaves: the leg has found it and is stored there in its role. -/
structure Attached (n n' : Relay) (l : LegId) (s : Session) : Prop where
  settled : Settled n.legs n'.legs
  created : n'.created = n.created
  hub : ∀ id s', n'.hub.sessions.lookup id = some s' →
    id = (n.legs l).id ∧ s' = s.setTx (n.legs l).isAgent l ∨
      id ≠ (n.legs l).id ∧ n.hub.sessions.lookup id = some s'
  self : (n'.legs l).pc = .reading ∧ (n'.legs l).found = true
  other : ∀ d, d ≠ l → n'.legs d = n.legs d
  stream : ∀ d, (n'.legs d).dataSent = (n.legs d).dataSent ∧
    (n'.legs d).taken = (n.legs d).taken
  held : ∀ d c, (n'.legs d).pc.heldFor c = (n.legs d).pc.heldFor c

theorem attached_attach {l : LegId} {s : Session} (hpc : (n.legs l).pc = .attaching)
    (hs : n.hub.sessions.lookup (n.legs l).id = some s) :
    Attached n ({ n with hub := n.hub.attach (n.legs l).id (n.legs l).isAgent l }.setLeg l
      { n.legs l with pc := .reading, found := true }) l s := by
  constructor
  case settled => exact settled_setLeg rfl rfl (by simp [hpc])
  case created => rfl
  case hub =>
    intro id s' h'
    rw [setLeg_hub, RelayHub.lookup_attach, hs] at h'
    split_ifs at h' with he
    · exact .inl ⟨he, (Option.some.inj h').symm⟩
    · exact .inr ⟨he, h'⟩
  case self =>
    rw [setLeg_legs, if_pos rfl]
    exact ⟨rfl, rfl⟩
  case other => exact fun d hd => by rw [setLeg_legs, if_neg hd]
  case stream =>
    intro d
    rw [setLeg_legs]
    split_ifs with hd
    · rw [hd]
      exact ⟨rfl, rfl⟩
    · exact ⟨rfl, rfl⟩
  case held =>
    intro d c
    rw [setLeg_legs]
    split_ifs with hd
    · rw [hd, hpc]
      rfl
    · rfl

theorem Attached.found {l d : LegId} {s : Session} (q : Attached n n' l s)
    (hd : (n.legs d).found = true) : (n'.legs d).found = true := by
  by_cases he : d = l
  · rw [he, q.self.2]
  · rw [q.other d he, hd]

theorem Streaming.stored_attached (h : Streaming n) {l d : LegId} {s s' : Session}
    (hpc : (n.legs l).pc = .attaching) (hs : n.hub.sessions.lookup (n.legs l).id = some s)
    (q : Attached n n' l s) (hfd : (n'.legs d).found = true)
    (hs' : n'.hub.sessions.lookup (n'.legs d).id = some s') :
    s'.tx (n'.legs d).isAgent = some d := by
  rw [(q.settled.ident d).1] at hs'
  rw [(q.settled.ident d).2]
  rcases q.hub _ s' hs' with ⟨he, rfl⟩ | ⟨hne, hs'⟩
  · rw [Session.tx_setTx]
    by_cases hd : d = l
    · rw [hd, if_pos rfl]
    · rw [q.other d hd] at hfd
      have hopen : (n.legs d).pc ≠ .unopened := by
        intro hu
        rw [(h.fresh d (.inl hu)).1] at hfd
        cases hfd
      rw [if_neg fun hr => hd (h.one d l hopen (by simp [hpc]) he hr)]
      exact h.stored d s hfd (he ▸ hs)
  · have hd : d ≠ l := by
      rintro rfl
      exact hne rfl
    exact h.stored d s' (q.other d hd ▸ hfd) hs'

/-- The data of a peer that has taken up none starts with the attached leg. -/
theorem Streaming.full_attached (h : Streaming n) {l : LegId} {s : Session}
    (hpc : (n.legs l).pc = .attaching) (hs : n.hub.sessions.lookup (n.legs l).id = some s)
    (hg : AttachedFirst n (.leg (.step l))) (q : Attached n n' l s) (ho : Opposite n' a c)
    (hfc : (n'.legs c).found = true) (hrx : (n'.legs c).rxOpen = true) :
    (n'.legs c).dataSent ++ (n'.legs a).pc.heldFor c = dataOf (n'.legs a).taken := by
  have hf : (n.legs l).found = false := (h.fresh l (.inr hpc)).1
  replace ho := q.settled.opposite ho
  rw [(q.stream c).1, (q.stream a).2, q.held]
  by_cases hc : c = l
  · subst hc
    rw [h.unfound c hf, h.unheld hf, hg hpc (by simp [hs]) a ho, List.append_nil]
  · rw [q.other c hc] at hfc hrx
    exact h.full a c ho hfc hrx

theorem Streaming.attached (h : Streaming n) (hn : Sound n) {l : LegId} {s : Session}
    (hpc : (n.legs l).pc = .attaching) (hs : n.hub.sessions.lookup (n.legs l).id = some s)
    (hg : AttachedFirst n (.leg (.step l))) (q : Attached n n' l s) : Streaming n' := by
  have hf : (n.legs l).found = false := (h.fresh l (.inr hpc)).1
  constructor
  case fresh =>
    intro d
    by_cases hd : d = l
    · rw [hd, q.self.1]
      simp
    · rw [q.other d hd]
      exact h.fresh d
  case one => exact h.one_of q.settled
  case created =>
    intro d hd
    rw [(q.settled.ident d).1, q.created]
    by_cases he : d = l
    · exact he ▸ ((hn.ids.live _).mp (by simp [hs])).1
    · exact h.created d (q.other d he ▸ hd)
  case hand =>
    intro a m d ha
    have hne : a ≠ l := by
      rintro rfl
      simp [q.self.1] at ha
    exact q.found (h.hand a m d (q.other a hne ▸ ha))
  case slot =>
    intro id s' r d hs' ht
    rcases q.hub id s' hs' with ⟨rfl, rfl⟩ | ⟨hne, hs'⟩
    · rw [Session.tx_setTx] at ht
      split_ifs at ht
      · rw [← Option.some.inj ht, q.self.2]
      · exact q.found (h.slot _ s r d hs ht)
    · exact q.found (h.slot id s' r d hs' ht)
  case stored => exact fun d s' => h.stored_attached hpc hs q
  case unfound =>
    intro d hd
    rw [(q.stream d).1]
    by_cases he : d = l
    · rw [he, h.unfound l hf]
    · exact h.unfound d (q.other d he ▸ hd)
  case full => exact fun a c => h.full_attached hpc hs hg q
  case pre =>
    intro a c ho
    rw [(q.stream c).1, (q.stream a).2]
    exact h.pre a c (q.settled.opposite ho)

theorem Streaming.attach (h : Streaming n) (hn : Sound n) {l : LegId}
    (hpc : (n.legs l).pc = .attaching) (hg : AttachedFirst n (.leg (.step l))) :
    Streaming ({ n with hub := n.hub.attach (n.legs l).id (n.legs l).isAgent l }.setLeg l
      { n.legs l with
        pc := .reading, found := (n.hub.sessions.lookup (n.legs l).id).isSome }) := by
  cases hs : n.hub.sessions.lookup (n.legs l).id with
  | none =>
    -- nothing to attach to: the leg reads on without a session
    have hf : (n.legs l).found = false := (h.fresh l (.inr hpc)).1
    have hub : n.hub.attach (n.legs l).id (n.legs l).isAgent l = n.hub := by
      simp [RelayHub.attach, hs]
    rw [hub]
    exact h.still (by apply still_setLeg <;> simp [hpc, hf, LegPc.heldFor])
  | some s => exact h.attached hn hpc hs hg (attached_attach hpc hs)

/-- What a leg that takes up a frame or forwards it leaves as it is. -/
structure Handled (n n' : Relay) : Prop where
  hub : n'.hub = n.hub
  created : n'.created = n.created
  settled : Settled n.legs n'.legs
  found : ∀ l, (n'.legs l).found = (n.legs l).found
  fresh : ∀ l, (n'.legs l).pc = .unopened ∨ (n'.legs l).pc = .attaching →
    (n'.legs l).pc = (n.legs l).pc ∧ (n'.legs l).taken = (n.legs l).taken ∧
      (n'.legs l).rxOpen = (n.legs l).rxOpen
  rxOpen : ∀ l, (n'.legs l).rxOpen = true → (n.legs l).rxOpen = true

theorem Streaming.handled (h : Streaming n) (q : Handled n n')
    (hhand : ∀ l m d, (n'.legs l).pc = .sending m (some d) → (n.legs d).found = true)
    (hunfound : ∀ c, (n.legs c).found = false → (n'.legs c).dataSent = [])
    (hfull : ∀ a c, Opposite n a c → (n.legs c).found = true → (n.legs c).rxOpen = true →
      (n'.legs c).dataSent ++ (n'.legs a).pc.heldFor c = dataOf (n'.legs a).taken)
    (hpre : ∀ a c, Opposite n a c → (n'.legs c).dataSent <+: dataOf (n'.legs a).taken) :
    Streaming n' := by
  constructor
  case fresh =>
    intro l hl
    obtain ⟨hpc, htaken, hrx⟩ := q.fresh l hl
    rw [hpc] at hl ⊢
    rw [q.found, htaken, hrx]
    exact h.fresh l hl
  case one => exact h.one_of q.settled
  case created =>
    intro l hl
    rw [(q.settled.ident l).1, q.created]
    exact h.created l (q.found l ▸ hl)
  case hand => exact fun l m d hpc => (q.found d).trans (hhand l m d hpc)
  case slot =>
    intro id s r l hs ht
    exact (q.found l).trans (h.slot id s r l (q.hub ▸ hs) ht)
  case stored =>
    intro l s hf hs
    rw [q.hub, (q.settled.ident l).1] at hs
    rw [(q.settled.ident l).2]
    exact h.stored l s (q.found l ▸ hf) hs
  case unfound => exact fun c hf => hunfound c (q.found c ▸ hf)
  case full =>
    intro a c ho hf hrx
    exact hfull a c (q.settled.opposite ho) (q.found c ▸ hf) (q.rxOpen c hrx)
  case pre => exact fun a c ho => hpre a c (q.settled.opposite ho)

/-- The relay where a leg has taken up its frame, for the peer that is stored. -/
def tookUp (n : Relay) (l : LegId) (m : Message) (s : Session) : Relay :=
  n.setLeg l { n.legs l with
    pc := .sending m (s.tx !(n.legs l).isAgent), taken := (n.legs l).taken ++ [m] }

theorem handled_tookUp {l : LegId} {m : Message} {s : Session}
    (hpc : (n.legs l).pc = .looking m) : Handled n (n.tookUp l m s) := by
  refine ⟨rfl, rfl, settled_setLeg rfl rfl (by simp [hpc]), setLeg_found rfl, fun d hd => ?_,
    fun d hd => ?_⟩
  · rw [tookUp, setLeg_legs] at hd ⊢
    split_ifs at hd ⊢
    · rcases hd with hd | hd <;> cases hd
    · exact ⟨rfl, rfl, rfl⟩
  · rw [tookUp, setLeg_legs] at hd
    split_ifs at hd with hl
    · exact hl ▸ hd
    · exact hd

theorem dataSent_tookUp {l : LegId} {m : Message} {s : Session} :
    ((n.tookUp l m s).legs c).dataSent = (n.legs c).dataSent := by
  rw [tookUp, setLeg_legs]
  split_ifs with hc
  · rw [hc]
    rfl
  · rfl

/-- The frame is in hand for the leg that is stored as the peer. -/
theorem Streaming.full_tookUp (h : Streaming n) {l : LegId} {m : Message} {s : Session}
    (hpc : (n.legs l).pc = .looking m) (hs : n.hub.sessions.lookup (n.legs l).id = some s)
    (ho : Opposite n a c) (hfc : (n.legs c).found = true) (hrx : (n.legs c).rxOpen = true) :
    ((n.tookUp l m s).legs c).dataSent ++ ((n.tookUp l m s).legs a).pc.heldFor c =
      dataOf ((n.tookUp l m s).legs a).taken := by
  have hfull := h.full a c ho hfc hrx
  rw [dataSent_tookUp, tookUp, setLeg_legs]
  split_ifs with ha
  · rw [ha] at ho hfull
    have htx : s.tx (!(n.legs l).isAgent) = some c := by
      rw [← ho.symm.2.2.2]
      exact h.stored c s hfc (ho.2.2.1 ▸ hs)
    have hheld : (LegPc.looking m).heldFor c = [] := rfl
    rw [hpc, hheld, List.append_nil] at hfull
    rw [htx, hfull, dataOf_append, LegPc.heldFor, if_pos rfl]
  · exact hfull

theorem Streaming.take (h : Streaming n) {l : LegId} {m : Message} {s : Session}
    (hpc : (n.legs l).pc = .looking m) (hs : n.hub.sessions.lookup (n.legs l).id = some s) :
    Streaming (n.tookUp l m s) := by
  refine h.handled (handled_tookUp hpc) ?_ ?_ (fun a c => h.full_tookUp hpc hs) ?_
  · intro a m' d ha
    rw [tookUp, setLeg_legs] at ha
    split_ifs at ha
    · obtain ⟨-, ht⟩ := LegPc.sending.inj ha
      exact h.slot _ s _ d hs ht
    · exact h.hand a m' d ha
  · intro c hf
    rw [dataSent_tookUp]
    exact h.unfound c hf
  · intro a c ho
    have hpre := h.pre a c ho
    rw [dataSent_tookUp, tookUp, setLeg_legs]
    split_ifs with ha
    · rw [ha] at hpre
      rw [dataOf_append]
      exact hpre.trans (List.prefix_append _ _)
    · exact hpre

theorem push_dataSent {x : Sent} {d : LegId} : ((n.push d x).legs c).dataSent =
    (n.legs c).dataSent ++ if c = d ∧ (n.legs d).rxOpen = true then dataOf [x.frame] else [] := by
  rw [Leg.dataSent, push_outgoing]
  split_ifs <;> simp [Leg.dataSent]

/-- The relay where a leg has sent its frame to its peer. -/
def forwarded (n : Relay) (l d : LegId) (m : Message) : Relay :=
  (n.push d (n.lastSent l m)).setLeg l { (n.push d (n.lastSent l m)).legs l with pc := .reading }

theorem handled_forwarded {l d : LegId} {m : Message} (hpc : (n.legs l).pc = .sending m (some d)) :
    Handled n (n.forwarded l d m) := by
  refine ⟨push_hub, push_created, settled_forward hpc, fun a => ?_, fun a ha => ?_,
    fun a ha => ?_⟩
  · rw [forwarded, setLeg_found (by rfl), push_found]
  · rw [forwarded, setLeg_legs] at ha ⊢
    split_ifs at ha ⊢
    · rcases ha with ha | ha <;> cases ha
    · exact ⟨push_pc, push_taken, push_rxOpen⟩
  · rw [forwarded, setLeg_legs] at ha
    split_ifs at ha with hl
    · simpa [hl] using ha
    · simpa using ha

theorem taken_forwarded {l d a : LegId} {m : Message} :
    ((n.forwarded l d m).legs a).taken = (n.legs a).taken := by
  rw [forwarded, setLeg_legs]
  split_ifs with ha
  · simp [ha]
  · simp

theorem dataSent_forwarded {l d c : LegId} {m : Message} :
    ((n.forwarded l d m).legs c).dataSent =
      (n.legs c).dataSent ++ if c = d ∧ (n.legs d).rxOpen = true then dataOf [m] else [] := by
  have hpush : ((n.push d (n.lastSent l m)).legs c).dataSent = (n.legs c).dataSent ++
      if c = d ∧ (n.legs d).rxOpen = true then dataOf [m] else [] := push_dataSent
  rw [forwarded, setLeg_legs]
  by_cases hc : c = l
  · rw [if_pos hc, ← hpush, hc]
    rfl
  · rw [if_neg hc]
    exact hpush

/-- The only leg that stands opposite to the peer is the one that forwards. -/
theorem Streaming.forwards_only (h : Streaming n) (hw : Wired n) {l d : LegId} {m : Message}
    (hpc : (n.legs l).pc = .sending m (some d)) (ho : Opposite n a d) : a = l := by
  obtain ⟨hid, hrole, -⟩ := hw.peer l m d hpc
  exact h.one a l ho.1 (by simp [hpc]) (ho.2.2.1.trans hid) (by rw [ho.2.2.2, hrole, Bool.not_not])

theorem Streaming.full_forwarded (h : Streaming n) (hw : Wired n) {l d : LegId} {m : Message}
    (hpc : (n.legs l).pc = .sending m (some d)) (ho : Opposite n a c)
    (hfc : (n.legs c).found = true) (hrx : (n.legs c).rxOpen = true) :
    ((n.forwarded l d m).legs c).dataSent ++ ((n.forwarded l d m).legs a).pc.heldFor c =
      dataOf ((n.forwarded l d m).legs a).taken := by
  have hfull := h.full a c ho hfc hrx
  rw [dataSent_forwarded, taken_forwarded, ← hfull, List.append_assoc, forwarded, setLeg_legs]
  refine congrArg _ ?_
  by_cases ha : a = l
  · rw [ha, if_pos rfl, hpc]
    by_cases hcd : c = d
    · subst hcd
      simp [LegPc.heldFor, hrx]
    · simp [LegPc.heldFor, hcd, Ne.symm hcd]
  · have hcd : c ≠ d := by
      rintro rfl
      exact ha (h.forwards_only hw hpc ho)
    rw [if_neg fun hc => hcd hc.1, if_neg ha, push_pc, List.nil_append]

theorem Streaming.forward (h : Streaming n) (hw : Wired n) {l d : LegId} {m : Message}
    (hpc : (n.legs l).pc = .sending m (some d)) : Streaming (n.forwarded l d m) := by
  have hfd : (n.legs d).found = true := h.hand l m d hpc
  refine h.handled (handled_forwarded hpc) ?_ ?_ (fun a c => h.full_forwarded hw hpc) ?_
  · intro a m' d' ha
    rw [forwarded, setLeg_legs] at ha
    split_ifs at ha
    exact h.hand a m' d' (by simpa using ha)
  · intro c hfc
    have hcd : c ≠ d := by
      rintro rfl
      rw [hfd] at hfc
      cases hfc
    rw [dataSent_forwarded, if_neg fun hc => hcd hc.1, h.unfound c hfc, List.append_nil]
  · intro a c ho
    rw [dataSent_forwarded, taken_forwarded]
    split_ifs with hc
    · obtain ⟨rfl, hrx⟩ := hc
      obtain rfl := h.forwards_only hw hpc ho
      have hfull := h.full a c ho hfd hrx
      rw [hpc, LegPc.heldFor, if_pos rfl] at hfull
      rw [hfull]
    · rw [List.append_nil]
      exact h.pre a c ho

theorem Streaming.move (h : Streaming n) (hn : Sound n) (hone : OneLegPerRole n e)
    (hg : AttachedFirst n e) (hm : Move n e n') : Streaming n' := by
  cases hm with
  | stutter => exact h
  | frame hpc => exact h.still (by apply still_setLeg <;> simp [hpc, LegPc.heldFor])
  | ended hpc => exact h.still (by apply still_setLeg <;> simp [hpc, LegPc.heldFor])
  | gone hpc _ => exact h.still (by apply still_setLeg <;> simp [hpc, LegPc.heldFor])
  | drop hpc => exact h.still (by apply still_setLeg <;> simp [hpc, LegPc.heldFor])
  | close hu ha => exact h.still (by apply still_setLeg <;> simp [hu, ha])
  | ping hu ha => exact h.still (still_ping ha)
  | @remove l hpc =>
    refine h.still ((still_hub fun id s hs => ?_).trans
      (by apply still_setLeg <;> simp [hpc, LegPc.heldFor]))
    rw [RelayHub.lookup_removeSession] at hs
    split_ifs at hs
    exact hs
  | @create id hid =>
    constructor
    case fresh =>
      exact h.fresh
    case one =>
      exact h.one
    case created =>
      exact fun l hl => List.mem_cons_of_mem _ (h.created l hl)
    case hand =>
      exact h.hand
    case slot =>
      intro id' s r l hs ht
      rw [RelayHub.lookup_createSession] at hs
      split_ifs at hs
      · obtain rfl := Option.some.inj hs
        cases r <;> simp [Session.tx] at ht
      · exact h.slot id' s r l hs ht
    case stored =>
      intro l s hf hs
      have hne : (n.legs l).id ≠ id := fun he => hid (he ▸ h.created l hf)
      rw [RelayHub.lookup_createSession, if_neg hne] at hs
      exact h.stored l s hf hs
    case unfound =>
      exact h.unfound
    case full =>
      exact h.full
    case pre =>
      exact h.pre
  | opened hpc => exact h.open hn hpc hone
  | attach hpc => exact h.attach hn hpc hg
  | take hpc hs => exact h.take hpc hs
  | forward hpc => exact h.forward hn.wired hpc

/-- If an attach leaves the streams without a gap, the peer had taken up no data before. -/
theorem Streaming.attachedFirst (h : Streaming n) (hg : GapFree (n.step e)) :
    AttachedFirst n e := by
  unfold AttachedFirst
  split
  case h_2 => trivial
  rename_i c
  intro hpc hs a ho
  obtain ⟨hf, -, hrx⟩ := h.fresh c (.inr hpc)
  obtain ⟨ha, hc, hid, hrole⟩ := ho
  obtain ⟨s, hs⟩ := Option.isSome_iff_exists.mp hs
  have hac : a ≠ c := by rintro rfl; cases hb : (n.legs a).isAgent <;> simp [hb] at hrole
  have hw := hg.whole a c (s.setTx (n.legs c).isAgent c)
  simp only [step, legEvent, legStep, hpc, Opposite, setLeg_legs, setLeg_hub, if_neg hac, if_true,
    RelayHub.lookup_attach, hs, Option.map_some, Session.tx_setTx_self] at hw
  have hw := hw ⟨ha, by simp, hid, hrole⟩ trivial trivial (hrx hpc)
  rw [h.unheld hf, List.append_nil] at hw
  exact hw.symm.trans (h.unfound c hf)

/--
When the relayed stream has no gap, for sessions with one leg of each role and any interleaving:
every reachable state is gap-free if and only if each leg that attached to an existing session
did so before the opposite leg had taken up a data frame.
-/
theorem relay_gapFree_iff (es : List RelayEvent)
    (h : Transition.Steps step OneLegPerRole .new es) :
    Transition.Always step GapFree .new es ↔ Transition.Steps step AttachedFirst .new es := by
  have hstep : ∀ n e, Sound n ∧ Streaming n → OneLegPerRole n e → AttachedFirst n e →
      Sound (n.step e) ∧ Streaming (n.step e) :=
    fun n e ⟨hn, hs⟩ hone hg => ⟨hn.step e, hs.move hn hone hg (step_move n e)⟩
  exact Transition.always_iff_steps hstep (fun _ hn => hn.2.gapFree hn.1)
    (fun _ _ hn _ => hn.2.attachedFirst) ⟨sound_new, streaming_new⟩ h

/-- The session and the role of each tunnel socket that a run opens. -/
def openings (es : List RelayEvent) : List (Uuid × Bool) :=
  es.filterMap fun
    | .leg (.opened _ id r) => some (id, r)
    | _ => none

theorem Move.settled (hm : Move n e n') (ho : ¬ ∃ l id r, e = .leg (.opened l id r)) :
    Settled n.legs n'.legs := by
  cases hm with
  | stutter => exact ⟨fun _ hl => hl, fun _ => ⟨rfl, rfl⟩⟩
  | create _ => exact ⟨fun _ hl => hl, fun _ => ⟨rfl, rfl⟩⟩
  | opened _ => exact absurd ⟨_, _, _, rfl⟩ ho
  | frame hpc => exact settled_setLeg rfl rfl (by simp [hpc])
  | ended hpc => exact settled_setLeg rfl rfl (by simp [hpc])
  | attach hpc => exact settled_setLeg rfl rfl (by simp [hpc])
  | gone hpc _ => exact settled_setLeg rfl rfl (by simp [hpc])
  | take hpc _ => exact settled_setLeg rfl rfl (by simp [hpc])
  | drop hpc => exact settled_setLeg rfl rfl (by simp [hpc])
  | forward hpc => exact settled_forward hpc
  | remove hpc => exact settled_setLeg rfl rfl (by simp [hpc])
  | ping _ _ => exact ⟨by simp, by simp⟩
  | close hu _ => exact settled_setLeg rfl rfl hu

theorem Move.ident (hm : Move n e n') {l : LegId} (hl : (n'.legs l).pc ≠ .unopened) :
    (∃ id r, e = .leg (.opened l id r) ∧ (n'.legs l).id = id ∧ (n'.legs l).isAgent = r) ∨
      ((n.legs l).pc ≠ .unopened ∧ (n'.legs l).id = (n.legs l).id ∧
        (n'.legs l).isAgent = (n.legs l).isAgent) := by
  by_cases ho : ∃ a id r, e = .leg (.opened a id r)
  · obtain ⟨a, id, r, rfl⟩ := ho
    cases hm with
    | stutter => exact .inr ⟨hl, rfl, rfl⟩
    | opened hpc =>
      rw [setLeg_legs] at hl ⊢
      split_ifs at hl ⊢ with ha
      · exact .inl ⟨id, r, by rw [ha], rfl, rfl⟩
      · exact .inr ⟨hl, rfl, rfl⟩
  · exact .inr ((hm.settled ho).named hl)

/-- A run whose tunnel sockets are for pairwise distinct roles has one leg for each role. -/
theorem steps_oneLegPerRole (seen : List (Uuid × Bool)) {es : List RelayEvent}
    (hn : ∀ l, (n.legs l).pc ≠ .unopened → ((n.legs l).id, (n.legs l).isAgent) ∈ seen)
    (h : (seen ++ openings es).Nodup) : Transition.Steps step OneLegPerRole n es := by
  induction es generalizing n seen with
  | nil => trivial
  | cons e es ih =>
    have hm := step_move n e
    by_cases ho : ∃ l id r, e = .leg (.opened l id r)
    · obtain ⟨l, id, r, rfl⟩ := ho
      rw [show openings (.leg (.opened l id r) :: es) = (id, r) :: openings es from rfl] at h
      refine ⟨fun _ l' hl' hid hrole => ?_, ih (seen ++ [(id, r)]) (fun l' hl' => ?_) (by simpa)⟩
      · have hmem := hn l' hl'
        rw [hid, hrole] at hmem
        exact (List.nodup_append.mp h).2.2 _ hmem _ List.mem_cons_self rfl
      · rcases hm.ident hl' with ⟨id', r', he, hid, hrole⟩ | ⟨hu, hid, hrole⟩
        · simp only [RelayEvent.leg.injEq, LegEvent.opened.injEq] at he
          obtain ⟨-, rfl, rfl⟩ := he
          rw [hid, hrole]
          exact List.mem_append_right _ List.mem_cons_self
        · rw [hid, hrole]
          exact List.mem_append_left _ (hn l' hu)
    · have hskip : openings (e :: es) = openings es := by
        rcases e with id | (⟨l, id, r⟩ | _ | _ | _ | _ | _) <;> first | rfl | skip
        exact absurd ⟨l, id, r, rfl⟩ ho
      have hone : OneLegPerRole n e := by
        rcases e with id | (⟨l, id, r⟩ | _ | _ | _ | _ | _) <;> first | trivial | skip
        exact absurd ⟨l, id, r, rfl⟩ ho
      refine ⟨hone, ih seen (fun l' hl' => ?_) (hskip ▸ h)⟩
      rcases hm.ident hl' with ⟨id', r', he, -⟩ | ⟨hu, hid, hrole⟩
      · exact absurd ⟨l', id', r', he⟩ ho
      · rw [hid, hrole]
        exact hn l' hu

/-- The agent leg takes up the banner of the VNC server before the client leg attaches. -/
def bannerLost : List RelayEvent :=
  [.create ⟨7⟩, .leg (.opened 1 ⟨7⟩ true), .leg (.step 1), .leg (.frame 1 (.binary [82, 70, 66])),
    .leg (.step 1), .leg (.step 1), .leg (.opened 2 ⟨7⟩ false), .leg (.step 2)]

theorem relay_loses_banner : ¬ ∀ es : List RelayEvent,
    Transition.Steps step OneLegPerRole .new es → Transition.Always step GapFree .new es := by
  intro h
  have hone : Transition.Steps step OneLegPerRole .new bannerLost :=
    steps_oneLegPerRole [] (fun l hl => absurd rfl hl) (by decide)
  have hg := h bannerLost hone bannerLost List.prefix_rfl
  have hw := hg.whole 1 2 ⟨some 1, some 2⟩ (by unfold Opposite; decide) (by decide) (by decide)
    (by decide)
  exact absurd hw (by decide)

/-- The same events with the client leg attached first. -/
theorem relay_gapFree_iff_banner :
    let es := [.create ⟨7⟩, .leg (.opened 2 ⟨7⟩ false), .leg (.step 2), .leg (.opened 1 ⟨7⟩ true),
      .leg (.step 1), .leg (.frame 1 (.binary [82, 70, 66])), .leg (.step 1), .leg (.step 1)]
    Transition.Steps step OneLegPerRole .new es ∧
      (Transition.Always step GapFree .new es ↔ Transition.Steps step AttachedFirst .new es) := by
  intro es
  have hone : Transition.Steps step OneLegPerRole .new es :=
    steps_oneLegPerRole [] (fun l hl => absurd rfl hl) (by decide)
  exact ⟨hone, relay_gapFree_iff es hone⟩

end Relay

end Urc
