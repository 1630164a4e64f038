import Urc.Agent.RepeatGuard

/-! # The requests of the repeat guard

One run of the guard, request by request. A keyboard may be unplugged at any time, and the X server
may refuse a request. The explicit restoration writes the core keyboard first, which overwrites the
attached ones, and each of these behind it; the settings that the X server resets by itself when
the connection closes make up for the requests that it has refused.
-/

namespace Urc

/-- Where `run` stands: reading the controls of the keyboards in `todo`, arming the reset of one
keyboard with the rest in `todo`, about to suppress repeat, about to print "ready", waiting behind
it, restoring the keyboards in `todo`, or with its connection closed. -/
inductive GuardPc
  | reading (todo : List DeviceId)
  | arming (o : DeviceId × Bool) (todo : List DeviceId)
  | suppressing
  | installing
  | ready
  | restoring (todo : List (DeviceId × Bool))
  | closed

/-- `originals` are the notes of the guard, `armed` what the X server resets for it, `refused` the
keyboards whose restoration was refused. -/
structure GuardRun where
  keyboards : KeyboardSet
  bits : RepeatBits
  present : DeviceId → Bool
  pc : GuardPc
  originals : List (DeviceId × Bool)
  armed : List (DeviceId × Bool)
  refused : List DeviceId

/-- `request` is the next request of the guard, which the X server may refuse; `proceed` is its next
step that asks nothing of the server, with an error or without; `ended` is the end of stdin, SIGTERM
or SIGINT; `killed` a signal that is not handled. -/
inductive GuardEvent
  | request (granted : Bool)
  | proceed (ok : Bool)
  | ended
  | killed
  | unplug (k : DeviceId)
  deriving DecidableEq

namespace GuardRun

def new (keyboards : KeyboardSet) (bits : RepeatBits) (present : DeviceId → Bool) : GuardRun :=
  ⟨keyboards, bits, present, .reading keyboards.ids, [], [], []⟩

/-- The X server resets the controls of a client that is gone. -/
def close (s : GuardRun) : GuardRun :=
  { s with pc := .closed, bits := autoReset s.bits s.armed }

/-- `drop(guard)`. -/
def dropGuard (s : GuardRun) : GuardRun :=
  { s with pc := .restoring (coreFirst s.keyboards s.originals) }

def request (s : GuardRun) (granted : Bool) : GuardRun :=
  match s.pc with
  | .reading (k :: todo) =>
    if granted && s.present k then
      { s with pc := .arming (k, s.bits k) todo, originals := s.originals ++ [(k, s.bits k)] }
    else s.close
  | .arming o todo =>
    if granted && s.present o.1 then { s with pc := .reading todo, armed := s.armed ++ [o] }
    else s.close
  | .suppressing =>
    if granted && s.present s.keyboards.coreId then
      { s with
        pc := .installing, bits := setRepeat s.keyboards s.bits s.keyboards.coreId false }
    else s.dropGuard
  | .restoring ((k, enabled) :: todo) =>
    if granted && s.present k then
      { s with pc := .restoring todo, bits := setRepeat s.keyboards s.bits k enabled }
    else { s with pc := .restoring todo, refused := k :: s.refused }
  | _ => s

def step (s : GuardRun) : GuardEvent → GuardRun
  | .request granted => s.request granted
  | .proceed ok =>
    match s.pc with
    | .reading [] => { s with pc := .suppressing }
    | .installing => if ok then { s with pc := .ready } else s.dropGuard
    | .restoring [] => s.close
    | _ => s
  | .ended =>
    match s.pc with
    | .ready => s.dropGuard
    | _ => s
  | .killed =>
    match s.pc with
    | .closed => s
    | _ => s.close
  | .unplug k => { s with present := Function.update s.present k false }

/-- What the guard promises: no repeat from "ready" on; an end after as many requests as it has
notes, whatever becomes of them; its requests alone restore every keyboard whose own request was
granted; and when it is gone, every keyboard that is present is as it was. -/
structure Exact (bits₀ : RepeatBits) (s : GuardRun) : Prop where
  suppressed : s.pc = .ready → ∀ k ∈ s.keyboards.ids, s.bits k = false
  ends : s.pc = .ready → ∀ grants : List Bool, grants.length = s.originals.length →
    (Transition.run step s (.ended :: grants.map .request ++ [.proceed true])).pc = .closed
  restored : s.pc = .restoring [] → ∀ k ∈ s.keyboards.ids, k ∉ s.refused → s.bits k = bits₀ k
  closed : s.pc = .closed → ∀ k ∈ s.keyboards.ids, s.present k = true → s.bits k = bits₀ k

open KeyRepeat (autoReset_apply mem_coreFirst setRepeat_outside)

variable {s : GuardRun} {e : GuardEvent} {granted : Bool} {bits₀ : RepeatBits}

def NotedAndArmed (s : GuardRun) (k : DeviceId) : Prop :=
  k ∈ s.originals.map (·.1) ∧ k ∈ s.armed.map (·.1)

/-- What is left of a restoration that goes on behind the core keyboard: no entry of the core
keyboard stands behind another one, and while one is left, an entry of every keyboard is. -/
structure Leads (d : KeyboardSet) (todo : List (DeviceId × Bool)) : Prop where
  ordered : todo.Pairwise fun o o' => o'.1 = d.coreId → o.1 = d.coreId
  all : d.coreId ∈ todo.map (·.1) → ∀ k ∈ d.ids, k ∈ todo.map (·.1)

def DoneBy (bits₀ : RepeatBits) (s : GuardRun) : Prop :=
  match s.pc with
  | .reading todo => s.bits = bits₀ ∧ (∀ k ∈ todo, k ∈ s.keyboards.ids) ∧
      ∀ k ∈ s.keyboards.ids, k ∈ todo ∨ s.NotedAndArmed k
  | .arming o todo => s.bits = bits₀ ∧ o ∈ s.originals ∧ (∀ k ∈ todo, k ∈ s.keyboards.ids) ∧
      ∀ k ∈ s.keyboards.ids, k = o.1 ∨ k ∈ todo ∨ s.NotedAndArmed k
  | .suppressing => s.bits = bits₀ ∧ ∀ k ∈ s.keyboards.ids, s.NotedAndArmed k
  | .installing | .ready => ∀ k ∈ s.keyboards.ids, s.NotedAndArmed k ∧ s.bits k = false
  | .restoring todo => (∀ k ∈ s.keyboards.ids, s.NotedAndArmed k) ∧ Leads s.keyboards todo ∧
      (∀ o ∈ todo, o ∈ s.originals) ∧
      ∀ k ∈ s.keyboards.ids, k ∉ todo.map (·.1) → k ∉ s.refused → s.bits k = bits₀ k
  | .closed => s.bits = bits₀

structure Accurate (bits₀ : RepeatBits) (s : GuardRun) : Prop where
  originals : ∀ o ∈ s.originals, o.2 = bits₀ o.1 ∧ o.1 ∈ s.keyboards.ids
  armed : ∀ o ∈ s.armed, o.2 = bits₀ o.1
  outside : ∀ j, j ∉ s.keyboards.ids → s.bits j = bits₀ j
  place : DoneBy bits₀ s

theorem run_restoring {todo : List (DeviceId × Bool)} {grants : List Bool}
    (hpc : s.pc = .restoring todo) (hlen : grants.length = todo.length) :
    (Transition.run step s (grants.map .request)).pc = .restoring [] := by
  induction todo generalizing s grants with
  | nil =>
    obtain rfl := List.eq_nil_of_length_eq_zero hlen
    exact hpc
  | cons o todo ih =>
    obtain ⟨granted, grants, rfl⟩ := List.exists_cons_of_length_eq_add_one hlen
    have hnext : (s.step (.request granted)).pc = .restoring todo := by
      simp only [step, request, hpc]
      split_ifs <;> rfl
    rw [List.map_cons, Transition.run_cons]
    exact ih hnext (Nat.succ.inj hlen)

theorem length_coreFirst (d : KeyboardSet) (originals : List (DeviceId × Bool)) :
    (coreFirst d originals).length = originals.length := by
  rw [coreFirst, List.length_append, ← List.countP_eq_length_filter, ← List.countP_eq_length_filter]
  simpa using (originals.length_eq_countP_add_countP fun o => decide (o.1 = d.coreId)).symm

theorem run_ended {grants : List Bool} (hpc : s.pc = .ready)
    (hlen : grants.length = s.originals.length) :
    (Transition.run step s (.ended :: grants.map .request ++ [.proceed true])).pc = .closed := by
  have hdrop : (s.step .ended).pc = .restoring (coreFirst s.keyboards s.originals) := by
    simp only [step, hpc]
    rfl
  have hclose : ∀ t : GuardRun, t.pc = .restoring [] → (t.step (.proceed true)).pc = .closed := by
    intro t ht
    simp only [step, ht]
    rfl
  rw [List.cons_append, Transition.run_cons, Transition.run_append]
  exact hclose _ (run_restoring hdrop (hlen.trans (length_coreFirst _ _).symm))

theorem Accurate.exact (hs : s.Accurate bits₀) : s.Exact bits₀ := by
  have hplace := hs.place
  refine ⟨?_, fun hpc _ hlen => run_ended hpc hlen, ?_, ?_⟩
  · intro hpc k hk
    simp only [DoneBy, hpc] at hplace
    exact (hplace k hk).2
  · intro hpc k hk
    simp only [DoneBy, hpc] at hplace
    exact hplace.2.2.2 k hk List.not_mem_nil
  · intro hpc k _ _
    simp only [DoneBy, hpc] at hplace
    exact congrFun hplace k

theorem accurate_new (d : KeyboardSet) (bits₀ : RepeatBits) (present : DeviceId → Bool) :
    (new d bits₀ present).Accurate bits₀ where
  originals _ ho := absurd ho List.not_mem_nil
  armed _ ho := absurd ho List.not_mem_nil
  outside _ _ := rfl
  place := ⟨rfl, fun _ hk => hk, fun _ hk => .inl hk⟩

/-- The X server finds every setting that the guard may have changed. -/
theorem Accurate.autoReset (hs : s.Accurate bits₀) : autoReset s.bits s.armed = bits₀ := by
  funext j
  rw [autoReset_apply hs.armed]
  split_ifs with hj
  · rfl
  · have hfree : (∀ k ∈ s.keyboards.ids, s.NotedAndArmed k) → s.bits j = bits₀ j := fun hall =>
      hs.outside j fun hd => hj (hall j hd).2
    have hplace := hs.place
    unfold DoneBy at hplace
    split at hplace
    · exact congrFun hplace.1 j
    · exact congrFun hplace.1 j
    · exact congrFun hplace.1 j
    · exact hfree fun k hk => (hplace k hk).1
    · exact hfree fun k hk => (hplace k hk).1
    · exact hfree hplace.1
    · exact congrFun hplace j

theorem Accurate.close (hs : s.Accurate bits₀) : s.close.Accurate bits₀ where
  originals := hs.originals
  armed := hs.armed
  outside j _ := congrFun hs.autoReset j
  place := hs.autoReset

theorem leads_coreFirst (d : KeyboardSet) {originals : List (DeviceId × Bool)}
    (hall : ∀ k ∈ d.ids, k ∈ originals.map (·.1)) : Leads d (coreFirst d originals) where
  ordered := by
    rw [coreFirst, List.pairwise_append]
    refine ⟨?_, ?_, ?_⟩
    · refine List.pairwise_of_forall_mem_list fun o ho _ _ _ => ?_
      simpa using (List.mem_filter.mp ho).2
    · refine List.pairwise_of_forall_mem_list fun _ _ o' ho' hcore => ?_
      have hne := (List.mem_filter.mp ho').2
      simp [hcore] at hne
    · exact fun o ho _ _ _ => by simpa using (List.mem_filter.mp ho).2
  all _ k hk := by
    obtain ⟨o, ho, rfl⟩ := List.mem_map.mp (hall k hk)
    exact List.mem_map.mpr ⟨o, mem_coreFirst.mpr ho, rfl⟩

theorem Accurate.dropGuard (hs : s.Accurate bits₀)
    (hall : ∀ k ∈ s.keyboards.ids, s.NotedAndArmed k) : s.dropGuard.Accurate bits₀ where
  originals := hs.originals
  armed := hs.armed
  outside := hs.outside
  place := by
    have hlead := leads_coreFirst s.keyboards fun k hk => (hall k hk).1
    refine ⟨hall, hlead, fun o ho => mem_coreFirst.mp ho, fun k hk hnot => ?_⟩
    obtain ⟨o, ho, rfl⟩ := List.mem_map.mp (hall k hk).1
    exact absurd (List.mem_map.mpr ⟨o, mem_coreFirst.mpr ho, rfl⟩) hnot

/-! ### The explicit requests -/

variable {d : KeyboardSet} {o : DeviceId × Bool} {todo : List (DeviceId × Bool)}

theorem Leads.tail (h : Leads d (o :: todo)) : Leads d todo where
  ordered := h.ordered.tail
  all hcore k hk := by
    obtain ⟨o', ho', hid⟩ := List.mem_map.mp hcore
    have hfirst : o.1 = d.coreId := List.rel_of_pairwise_cons h.ordered ho' hid
    have hmem := h.all (List.mem_map.mpr ⟨o', List.mem_cons_of_mem _ ho', hid⟩) k hk
    rcases List.mem_cons.mp hmem with hk' | hk'
    · obtain rfl : k = d.coreId := hk'.trans hfirst
      exact hcore
    · exact hk'

/-- A granted request: what is no longer to be restored is as it was. -/
theorem restore_request {bits : RepeatBits} {refused : List DeviceId} (hlead : Leads d (o :: todo))
    (ho : o.2 = bits₀ o.1)
    (hdone : ∀ k ∈ d.ids, k ∉ (o :: todo).map (·.1) → k ∉ refused → bits k = bits₀ k) :
    ∀ k ∈ d.ids, k ∉ todo.map (·.1) → k ∉ refused → setRepeat d bits o.1 o.2 k = bits₀ k := by
  intro k hk hnot href
  by_cases hko : k = o.1
  · subst hko
    unfold setRepeat
    split_ifs with hcore
    · exact (if_pos hk).trans ho
    · rw [Function.update_self, ho]
  · have hout : k ∉ (o :: todo).map (·.1) := by simpa [hko] using hnot
    have hcore : ¬ o.1 = d.coreId := fun hcore =>
      hout (hlead.all (List.mem_map.mpr ⟨o, List.mem_cons_self, hcore⟩) k hk)
    rw [setRepeat, if_neg hcore, Function.update_of_ne hko]
    exact hdone k hk hout href

theorem Accurate.note {k : DeviceId} {todo : List DeviceId} (hs : s.Accurate bits₀)
    (hpc : s.pc = .reading (k :: todo)) : Accurate bits₀ { s with
      pc := .arming (k, s.bits k) todo, originals := s.originals ++ [(k, s.bits k)] } := by
  have hplace := hs.place
  simp only [DoneBy, hpc] at hplace
  obtain ⟨hbits, htodo, hall⟩ := hplace
  refine ⟨?_, hs.armed, hs.outside, hbits, ?_, ?_, ?_⟩
  · intro o ho
    rcases List.mem_append.mp ho with ho | ho
    · exact hs.originals o ho
    · obtain rfl := List.mem_singleton.mp ho
      exact ⟨congrFun hbits k, htodo k List.mem_cons_self⟩
  · exact List.mem_append_right _ (List.mem_singleton_self _)
  · exact fun j hj => htodo j (List.mem_cons_of_mem _ hj)
  · intro j hj
    rcases hall j hj with hm | hm
    · rcases List.mem_cons.mp hm with rfl | hm
      · exact .inl rfl
      · exact .inr (.inl hm)
    · refine .inr (.inr ⟨?_, hm.2⟩)
      rw [List.map_append]
      exact List.mem_append_left _ hm.1

theorem Accurate.arm {todo : List DeviceId} (hs : s.Accurate bits₀) (hpc : s.pc = .arming o todo) :
    Accurate bits₀ { s with pc := .reading todo, armed := s.armed ++ [o] } := by
  have hplace := hs.place
  simp only [DoneBy, hpc] at hplace
  obtain ⟨hbits, ho, htodo, hall⟩ := hplace
  refine ⟨hs.originals, ?_, hs.outside, hbits, htodo, ?_⟩
  · intro o' ho'
    rcases List.mem_append.mp ho' with ho' | ho'
    · exact hs.armed o' ho'
    · obtain rfl := List.mem_singleton.mp ho'
      exact (hs.originals _ ho).1
  · intro j hj
    have harmed : ∀ i ∈ s.armed.map (·.1), i ∈ (s.armed ++ [o]).map (·.1) := fun i hi => by
      rw [List.map_append]
      exact List.mem_append_left _ hi
    rcases hall j hj with rfl | hm | hm
    · refine .inr ⟨List.mem_map.mpr ⟨o, ho, rfl⟩, ?_⟩
      rw [List.map_append]
      exact List.mem_append_right _ (List.mem_singleton_self _)
    · exact .inl hm
    · exact .inr ⟨hm.1, harmed j hm.2⟩

theorem Accurate.suppress (hs : s.Accurate bits₀) (hpc : s.pc = .suppressing) :
    (s.request granted).Accurate bits₀ := by
  have hplace := hs.place
  simp only [DoneBy, hpc] at hplace
  obtain ⟨hbits, hall⟩ := hplace
  simp only [GuardRun.request, hpc]
  split_ifs
  · refine ⟨hs.originals, hs.armed, fun j hj => ?_, fun k hk => ⟨hall k hk, ?_⟩⟩
    · exact (setRepeat_outside s.keyboards.core_mem hj).trans (hs.outside j hj)
    · rw [setRepeat, if_pos rfl]
      exact if_pos hk
  · exact hs.dropGuard hall

theorem Accurate.restore (hs : s.Accurate bits₀) (hpc : s.pc = .restoring (o :: todo)) :
    (s.request granted).Accurate bits₀ := by
  have hplace := hs.place
  simp only [DoneBy, hpc] at hplace
  obtain ⟨hall, hlead, hmem, hdone⟩ := hplace
  have hcons := hs.originals o (hmem o List.mem_cons_self)
  have hrest : ∀ o' ∈ todo, o' ∈ s.originals := fun o' ho' => hmem o' (List.mem_cons_of_mem _ ho')
  simp only [GuardRun.request, hpc]
  split_ifs
  · refine ⟨hs.originals, hs.armed, fun j hj => ?_, hall, hlead.tail, hrest, ?_⟩
    · exact (setRepeat_outside hcons.2 hj).trans (hs.outside j hj)
    · exact restore_request hlead hcons.1 hdone
  · refine ⟨hs.originals, hs.armed, hs.outside, hall, hlead.tail, hrest, ?_⟩
    intro k hk hnot href
    simp only [List.mem_cons, not_or] at href
    exact hdone k hk (by simpa [href.1] using hnot) href.2

theorem Accurate.request (hs : s.Accurate bits₀) : (s.request granted).Accurate bits₀ := by
  cases hpc : s.pc with
  | reading todo =>
    cases todo with
    | nil => simpa only [GuardRun.request, hpc] using hs
    | cons k todo =>
      simp only [GuardRun.request, hpc]
      split_ifs
      · exact hs.note hpc
      · exact hs.close
  | arming o todo =>
    simp only [GuardRun.request, hpc]
    split_ifs
    · exact hs.arm hpc
    · exact hs.close
  | suppressing => exact hs.suppress hpc
  | restoring todo =>
    cases todo with
    | nil => simpa only [GuardRun.request, hpc] using hs
    | cons o todo => exact hs.restore hpc
  | installing | ready | closed => simpa only [GuardRun.request, hpc] using hs

theorem Accurate.step (hs : s.Accurate bits₀) : (s.step e).Accurate bits₀ := by
  have hplace := hs.place
  unfold DoneBy at hplace
  cases e with
  | request granted => exact hs.request
  | proceed ok =>
    unfold GuardRun.step
    dsimp only
    split
    · rename_i hpc
      simp only [hpc] at hplace
      refine ⟨hs.originals, hs.armed, hs.outside, hplace.1, fun k hk => ?_⟩
      exact (hplace.2.2 k hk).resolve_left List.not_mem_nil
    · rename_i hpc
      simp only [hpc] at hplace
      split_ifs
      · exact ⟨hs.originals, hs.armed, hs.outside, hplace⟩
      · exact hs.dropGuard fun k hk => (hplace k hk).1
    · exact hs.close
    · exact hs
  | ended =>
    unfold GuardRun.step
    dsimp only
    split
    · rename_i hpc
      simp only [hpc] at hplace
      exact hs.dropGuard fun k hk => (hplace k hk).1
    · exact hs
  | killed =>
    unfold GuardRun.step
    dsimp only
    split
    · exact hs
    · exact hs.close
  | unplug k => exact ⟨hs.originals, hs.armed, hs.outside, hs.place⟩

/-- Whatever the X server refuses and whenever keyboards are unplugged, the guard keeps repeat off
while it is ready, and restores every keyboard when it ends. -/
theorem guard_exact (d : KeyboardSet) (bits₀ : RepeatBits) (present : DeviceId → Bool)
    (es : List GuardEvent) :
    Transition.Always GuardRun.step (Exact bits₀) (new d bits₀ present) es := fun pre _ =>
  (Transition.run_invariant (fun _ _ hs => hs.step) (accurate_new d bits₀ present) pre).exact

end GuardRun

end Urc
