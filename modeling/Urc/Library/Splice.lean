import Mathlib.Data.List.Infix
import Mathlib.Logic.Relation
import Urc.Library.Run

/-! # Splices

A splice joins two connections by two loops. Each loop reads a chunk from one connection and writes
it to the other before it reads again, and leaves where its source ends, where an item tells it to
stop, or where a connection fails. What a loop has written with what it still holds is what it has
read, in every interleaving with the peers; and a loop whose source is over comes to its end.
-/

namespace Splice

variable {α β γ : Type*}

/-- One direction of a connection: the items that its reader took and those on the way. The writer
may have ended it. Where it is broken, the process of the splice can no longer use it. -/
structure Pipe (α : Type*) where
  taken : List α
  queue : List α
  ended : Bool
  broken : Bool

namespace Pipe

variable {p : Pipe α}

def new : Pipe α := ⟨[], [], false, false⟩

def sent (p : Pipe α) : List α := p.taken ++ p.queue

def isOver (p : Pipe α) : Bool := p.ended || p.broken

def put (p : Pipe α) (xs : List α) : Pipe α := { p with queue := p.queue ++ xs }

def take (p : Pipe α) (n : ℕ) : Pipe α :=
  { p with taken := p.taken ++ p.queue.take n, queue := p.queue.drop n }

def finish (p : Pipe α) : Pipe α := { p with ended := true }

def cut (p : Pipe α) : Pipe α := { p with broken := true }

/-- The writer writes, unless the pipe is over. -/
def receive (p : Pipe α) (xs : List α) : Pipe α := if p.isOver then p else p.put xs

@[simp] theorem put_nil (p : Pipe α) : p.put [] = p := by
  simp [put]

@[simp] theorem sent_put (p : Pipe α) (xs : List α) : (p.put xs).sent = p.sent ++ xs :=
  (List.append_assoc ..).symm

@[simp] theorem sent_take (p : Pipe α) (n : ℕ) : (p.take n).sent = p.sent := by
  simp [sent, take]

@[simp] theorem sent_finish (p : Pipe α) : p.finish.sent = p.sent := rfl
@[simp] theorem isOver_cut (p : Pipe α) : p.cut.isOver = true := Bool.or_true _

theorem isOver_of_broken (h : p.broken = true) : p.isOver = true := by
  rw [isOver, h, Bool.or_true]

@[simp] theorem broken_receive (p : Pipe α) (xs : List α) :
    (p.receive xs).broken = p.broken := by
  unfold receive
  split <;> rfl

@[simp] theorem taken_receive (p : Pipe α) (xs : List α) : (p.receive xs).taken = p.taken := by
  unfold receive
  split <;> rfl

theorem sent_of_read (h : p.queue = []) : p.sent = p.taken := by
  rw [sent, h, List.append_nil]

/-- The items still to be read, each with what it carries; a broken pipe is not read. -/
def weight (load : α → List γ) (p : Pipe α) : ℕ :=
  if p.broken then 0 else p.queue.length + (p.queue.flatMap load).length

@[simp] theorem weight_cut (load : α → List γ) (p : Pipe α) : p.cut.weight load = 0 := rfl

theorem weight_take (load : α → List γ) (p : Pipe α) (n : ℕ) (hb : p.broken = false) :
    p.weight load = (p.take n).weight load + (p.queue.take n).length +
      ((p.queue.take n).flatMap load).length := by
  have hsplit : p.queue.length = (p.queue.take n).length + (p.queue.drop n).length := by
    rw [← List.length_append, List.take_append_drop]
  have hload : (p.queue.flatMap load).length =
      ((p.queue.take n).flatMap load).length + ((p.queue.drop n).flatMap load).length := by
    rw [← List.length_append, ← List.flatMap_append, List.take_append_drop]
  simp only [weight, take, hb, Bool.false_eq_true, if_false]
  omega

end Pipe

/-- Where a loop stands: at its read, with a rest to write, behind its loop, or returned. A loop
that was left holds what it had read and not written. -/
inductive HalfPc (β : Type*)
  | reading
  | writing (y : β) (ys : List β)
  | left (rest : List β)
  | done (rest : List β)

namespace HalfPc

def rest : HalfPc β → List β
  | .reading => []
  | .writing y ys => y :: ys
  | .left rest | .done rest => rest

def resume : List β → HalfPc β
  | [] => .reading
  | y :: ys => .writing y ys

def isOver : HalfPc β → Bool
  | .left _ | .done _ => true
  | .reading | .writing _ _ => false

@[simp] theorem rest_resume (ys : List β) : (resume ys).rest = ys := by cases ys <;> rfl

@[simp] theorem isOver_resume (ys : List β) : (resume ys).isOver = false := by cases ys <;> rfl

end HalfPc

/--
What a loop makes of what it reads: it reads at most `width` items at once, and turns them into
items to write, or stops. `load` gives what an item of either side carries, and a turn loses none
of it.
-/
structure Copier (α β γ : Type*) where
  width : ℕ
  turn : List α → Option (List β)
  load : α → List γ
  load' : β → List γ
  width_pos : 0 < width
  turn_load : ∀ xs ys, turn xs = some ys → ys.flatMap load' = xs.flatMap load
  turn_stop : ∀ xs, turn xs = none → xs.flatMap load = []
  turn_length : ∀ xs ys, xs ≠ [] → turn xs = some ys → ys.length ≤ (xs.flatMap load).length

theorem length_of_some {xs ys : List α} (h : some xs = some ys) :
    ys.length ≤ (xs.flatMap fun x => [x]).length := by
  rw [Option.some.inj h, List.flatMap_singleton']

/-- A loop that writes what it reads, at most `width + 1` items at once. -/
def Copier.plain (α : Type*) (width : ℕ) : Copier α α α :=
  ⟨width + 1, some, fun x => [x], fun x => [x], Nat.succ_pos width,
    fun _ _ h => congrArg (List.flatMap fun x => [x]) (Option.some.inj h).symm,
    (fun _ h => nomatch h), fun _ _ _ => length_of_some⟩

structure Half (α β : Type*) where
  src : Pipe α
  pc : HalfPc β
  dst : Pipe β

namespace Half

variable {c : Copier α β γ} {h h' : Half α β}

def new : Half α β := ⟨.new, .reading, .new⟩

/-- The loop runs on to its next await: a read of at most `n + 1` items, or the write of at most
that many. -/
def go (c : Copier α β γ) (n : ℕ) (h : Half α β) : Half α β :=
  match h.pc with
  | .reading =>
    if h.src.broken then { h with pc := .left [] }
    else if h.src.queue.isEmpty then
      if h.src.ended then { h with pc := .left [] } else h
    else
      let k := min (n + 1) c.width
      match c.turn (h.src.queue.take k) with
      | none => { h with src := h.src.take k, pc := .left [] }
      | some ys => { h with src := h.src.take k, pc := .resume ys }
  | .writing y ys =>
    if h.dst.broken then { h with pc := .left (y :: ys) }
    else { h with dst := h.dst.put (y :: ys.take n), pc := .resume (ys.drop n) }
  | .left _ | .done _ => h

inductive Goes (c : Copier α β γ) (h : Half α β) : Half α β → Prop
  | blocked : h.pc = .reading → h.src.isOver = false → Goes c h h
  | finished : h.pc = .reading → h.src.broken = true ∨ h.src.queue = [] ∧ h.src.ended = true →
      Goes c h { h with pc := .left [] }
  | stopped {k : ℕ} : h.pc = .reading → 0 < k → h.src.queue ≠ [] →
      c.turn (h.src.queue.take k) = none → Goes c h { h with src := h.src.take k, pc := .left [] }
  | turned {k : ℕ} {ys : List β} : h.pc = .reading → 0 < k → h.src.queue ≠ [] →
      h.src.broken = false → c.turn (h.src.queue.take k) = some ys →
      Goes c h { h with src := h.src.take k, pc := .resume ys }
  | refused {y : β} {ys : List β} : h.pc = .writing y ys → h.dst.broken = true →
      Goes c h { h with pc := .left (y :: ys) }
  | wrote {y : β} {ys : List β} (n : ℕ) : h.pc = .writing y ys → h.dst.broken = false →
      Goes c h { h with dst := h.dst.put (y :: ys.take n), pc := .resume (ys.drop n) }
  | left : h.pc.isOver = true → Goes c h h

theorem go_goes (c : Copier α β γ) (n : ℕ) (h : Half α β) : Goes c h (h.go c n) := by
  obtain ⟨src, pc, dst⟩ := h
  cases pc with
  | reading =>
    simp only [go]
    split
    · next hb => exact .finished rfl (.inl hb)
    · next hb =>
      have hb : src.broken = false := by simpa using hb
      split
      · next hq =>
        have hq : src.queue = [] := by simpa using hq
        split
        · next he => exact .finished rfl (.inr ⟨hq, he⟩)
        · next he => exact .blocked rfl (by simpa [Pipe.isOver, hb] using he)
      · next hq =>
        have hq : src.queue ≠ [] := by simpa using hq
        have hk : 0 < min (n + 1) c.width := lt_min (Nat.succ_pos n) c.width_pos
        split
        · next ht => exact .stopped rfl hk hq ht
        · next ys ht => exact .turned rfl hk hq hb ht
  | writing y ys =>
    simp only [go]
    split
    · next hb => exact .refused rfl hb
    · next hb => exact .wrote n rfl (by simpa using hb)
  | left rest => exact .left rfl
  | done rest => exact .left rfl

def wake (y : β) (h : Half α β) : Half α β :=
  match h.pc with
  | .reading => { h with pc := .writing y [] }
  | .writing _ _ | .left _ | .done _ => h

/-- What else can happen to a loop: it runs on, a peer writes, ends or reads, a connection is lost
or closed, it ends its sink behind the loop, returns, or is given up. -/
inductive Step (c : Copier α β γ) (h : Half α β) : Half α β → Prop
  | go (n : ℕ) : Step c h (h.go c n)
  | arrive (xs : List α) : h.src.isOver = false → Step c h { h with src := h.src.put xs }
  | finish : Step c h { h with src := h.src.finish }
  | cutSrc : Step c h { h with src := h.src.cut }
  | cutDst : Step c h { h with dst := h.dst.cut }
  | collect (n : ℕ) : Step c h { h with dst := h.dst.take n }
  | close (ys : List β) : h.pc.isOver = true → ys.flatMap c.load' = [] →
      (h.dst.broken = true → ys = []) →
      Step c h { h with dst := (h.dst.put ys).finish, pc := .done h.pc.rest }
  | endDst : Step c h { h with dst := h.dst.finish }
  | returned : h.pc.isOver = true → Step c h { h with pc := .done h.pc.rest }
  | giveUp : h.src.broken = true → Step c h { h with pc := .done h.pc.rest }

theorem steps_receive (c : Copier α β γ) (h : Half α β) (xs : List α) :
    Relation.ReflTransGen (Step c) h { h with src := h.src.receive xs } := by
  unfold Pipe.receive
  split
  · exact .refl
  · next ho => exact .single (.arrive xs (by simpa using ho))

/-! ### Nothing is lost -/

def Exact (c : Copier α β γ) (h : Half α β) : Prop :=
  h.dst.sent.flatMap c.load' ++ h.pc.rest.flatMap c.load' = h.src.taken.flatMap c.load

theorem exact_new : Exact c (new : Half α β) := rfl

theorem Exact.goes (hx : h.Exact c) (hg : Goes c h h') : h'.Exact c := by
  unfold Exact at hx ⊢
  cases hg with
  | blocked _ _ => exact hx
  | finished hpc _ => simpa [hpc, HalfPc.rest] using hx
  | stopped hpc _ _ ht =>
    rw [hpc] at hx
    simpa [HalfPc.rest, Pipe.take, c.turn_stop _ ht] using hx
  | turned hpc _ _ _ ht =>
    rw [hpc] at hx
    simp only [HalfPc.rest_resume, c.turn_load _ _ ht, Pipe.take, List.flatMap_append, ← hx]
    simp [HalfPc.rest]
  | refused hpc _ => simpa [hpc, HalfPc.rest] using hx
  | wrote n hpc _ =>
    rw [hpc] at hx
    rw [Pipe.sent_put, HalfPc.rest_resume, List.flatMap_append, List.append_assoc,
      ← List.flatMap_append, List.cons_append, List.take_append_drop]
    exact hx
  | left _ => exact hx

theorem Exact.step (hx : h.Exact c) (hs : Step c h h') : h'.Exact c := by
  cases hs with
  | go n => exact hx.goes (go_goes c n h)
  | arrive xs _ => exact hx
  | finish => exact hx
  | cutSrc => exact hx
  | cutDst => exact hx
  | collect n => simpa [Exact] using hx
  | close ys _ hys _ => simpa [Exact, HalfPc.rest, hys] using hx
  | endDst => exact hx
  | returned _ => exact hx
  | giveUp _ => exact hx

theorem Exact.steps (hx : h.Exact c) (hs : Relation.ReflTransGen (Step c) h h') : h'.Exact c := by
  induction hs with
  | refl => exact hx
  | tail _ hs ih => exact ih.step hs

theorem Exact.wake {y : β} (hx : h.Exact c) (hy : c.load' y = []) : (h.wake y).Exact c := by
  unfold Half.wake
  split
  · next hpc => simpa [Exact, hpc, HalfPc.rest, hy] using hx
  all_goals exact hx

/-- What the reader behind the splice gets is the beginning of what the writer before it wrote. -/
theorem Exact.prefix_taken (hx : h.Exact c) :
    h.dst.taken.flatMap c.load' <+: h.src.sent.flatMap c.load := by
  have htaken : h.src.taken.flatMap c.load <+: h.src.sent.flatMap c.load := by
    rw [Pipe.sent, List.flatMap_append]
    exact List.prefix_append ..
  have hsent : h.dst.taken.flatMap c.load' <+: h.dst.sent.flatMap c.load' := by
    rw [Pipe.sent, List.flatMap_append]
    exact List.prefix_append ..
  exact (hsent.trans (hx ▸ List.prefix_append ..)).trans htaken

theorem length_rest_goes (hone : ∀ xs ys, c.turn xs = some ys → ys.length ≤ 1)
    (hlen : h.pc.rest.length ≤ 1) (hg : Goes c h h') : h'.pc.rest.length ≤ 1 := by
  cases hg with
  | turned _ _ _ _ ht => simpa using hone _ _ ht
  | wrote n hpc _ =>
    rw [hpc, HalfPc.rest, List.length_cons] at hlen
    rw [HalfPc.rest_resume, List.length_drop]
    omega
  | refused hpc _ => rwa [hpc] at hlen
  | finished _ _ => exact Nat.zero_le _
  | stopped _ _ _ _ => exact Nat.zero_le _
  | blocked _ _ => exact hlen
  | left _ => exact hlen

theorem length_rest_step (hone : ∀ xs ys, c.turn xs = some ys → ys.length ≤ 1)
    (hlen : h.pc.rest.length ≤ 1) (hs : Step c h h') : h'.pc.rest.length ≤ 1 := by
  cases hs with
  | go n => exact length_rest_goes hone hlen (go_goes c n h)
  | _ => exact hlen

/-! ### Why a loop was left -/

/-- A loop is left where a connection is lost, or with nothing in hand: at the end of its source,
or behind an item that stops it. -/
def Explained (c : Copier α β γ) (h : Half α β) : Prop :=
  h.pc.isOver = true → h.src.broken = true ∨ h.dst.broken = true ∨ h.pc.rest = [] ∧
    (h.src.queue = [] ∧ h.src.ended = true ∨
      ∃ xs, xs ≠ [] ∧ xs <:+ h.src.taken ∧ c.turn xs = none)

theorem explained_new : Explained c (new : Half α β) := fun hover => Bool.noConfusion hover

theorem Explained.goes (hx : h.Explained c) (hg : Goes c h h') : h'.Explained c := by
  intro hover
  cases hg with
  | blocked _ _ => exact hx hover
  | finished _ ho =>
    rcases ho with hb | ho
    · exact .inl hb
    · exact .inr (.inr ⟨rfl, .inl ho⟩)
  | stopped _ hk hq ht =>
    refine .inr (.inr ⟨rfl, .inr ⟨_, ?_, List.suffix_append .., ht⟩⟩)
    rw [Ne, List.take_eq_nil_iff]
    rintro (rfl | hnil)
    · exact hk.false
    · exact hq hnil
  | turned _ _ _ _ _ => simp at hover
  | refused _ hb => exact .inr (.inl hb)
  | wrote _ _ _ => simp at hover
  | left _ => exact hx hover

theorem Explained.step (hx : h.Explained c) (hs : Step c h h') : h'.Explained c := by
  cases hs with
  | go n => exact hx.goes (go_goes c n h)
  | arrive xs ho =>
    intro hover
    have hopen : h.src.ended = false := by
      rw [Pipe.isOver, Bool.or_eq_false_iff] at ho
      exact ho.1
    rcases hx hover with hb | hb | ⟨hr, ⟨-, he⟩ | hstop⟩
    · exact .inl hb
    · exact .inr (.inl hb)
    · exact absurd (hopen.symm.trans he) Bool.false_ne_true
    · exact .inr (.inr ⟨hr, .inr hstop⟩)
  | finish =>
    intro hover
    rcases hx hover with hb | hb | ⟨hr, ⟨hq, -⟩ | hstop⟩
    · exact .inl hb
    · exact .inr (.inl hb)
    · exact .inr (.inr ⟨hr, .inl ⟨hq, rfl⟩⟩)
    · exact .inr (.inr ⟨hr, .inr hstop⟩)
  | cutSrc => exact fun _ => .inl rfl
  | cutDst => exact fun _ => .inr (.inl rfl)
  | collect n => exact hx
  | close ys hover _ _ => exact fun _ => hx hover
  | endDst => exact hx
  | returned hover => exact fun _ => hx hover
  | giveUp hb => exact fun _ => .inl hb

theorem Explained.steps (hx : h.Explained c) (hs : Relation.ReflTransGen (Step c) h h') :
    h'.Explained c := by
  induction hs with
  | refl => exact hx
  | tail _ hs ih => exact ih.step hs

/-- A loop that was left on connections that work has written all that its source wrote, if an item
that stops it is the last one. -/
theorem Explained.sentAll (hleft : h.Explained c) (hexact : h.Exact c)
    (hstop : ∀ xs, xs <:+ h.src.taken → c.turn xs = none →
      h.src.queue = [] ∧ h.src.ended = true)
    (hover : h.pc.isOver = true) (hsrc : h.src.broken = false) (hdst : h.dst.broken = false) :
    h.src.ended = true ∧ h.dst.sent.flatMap c.load' = h.src.sent.flatMap c.load := by
  rcases hleft hover with hb | hb | ⟨hrest, hwhy⟩
  · exact absurd (hsrc.symm.trans hb) Bool.false_ne_true
  · exact absurd (hdst.symm.trans hb) Bool.false_ne_true
  have hread : h.src.queue = [] ∧ h.src.ended = true := by
    rcases hwhy with hread | ⟨xs, -, hsuffix, hnone⟩
    · exact hread
    · exact hstop xs hsuffix hnone
  rw [Half.Exact, hrest, List.flatMap_nil, List.append_nil] at hexact
  rw [Pipe.sent_of_read hread.1]
  exact ⟨hread.2, hexact⟩

theorem Explained.wake (y : β) (hx : h.Explained c) : (h.wake y).Explained c := by
  unfold Half.wake
  split
  · exact fun hover => Bool.noConfusion hover
  all_goals exact hx

/-! ### The end of a loop -/

/-- A loop that runs on ends nothing and breaks nothing, and leaves what was sent to it as it is. -/
structure Kept (h h' : Half α β) : Prop where
  sent : h'.src.sent = h.src.sent
  taken' : h'.dst.taken = h.dst.taken
  ended : h'.src.ended = h.src.ended
  broken : h'.src.broken = h.src.broken
  ended' : h'.dst.ended = h.dst.ended
  broken' : h'.dst.broken = h.dst.broken
  left : h.pc.isOver = true → h' = h
  done : ∀ rest, h'.pc = .done rest → h.pc = .done rest

theorem kept_goes (hg : Goes c h h') : Kept h h' := by
  have hresume : ∀ (ys rest : List β), HalfPc.resume ys ≠ .done rest := by
    intro ys rest
    cases ys <;> exact nofun
  cases hg with
  | stopped hr _ _ _ =>
    exact ⟨by simp, rfl, rfl, rfl, rfl, rfl, by simp [hr, HalfPc.isOver], nofun⟩
  | turned hr _ _ _ _ =>
    exact ⟨by simp, rfl, rfl, rfl, rfl, rfl, by simp [hr, HalfPc.isOver],
      fun rest hd => absurd hd (hresume _ rest)⟩
  | finished hr _ =>
    exact ⟨rfl, rfl, rfl, rfl, rfl, rfl, by simp [hr, HalfPc.isOver], nofun⟩
  | refused hr _ =>
    exact ⟨rfl, rfl, rfl, rfl, rfl, rfl, by simp [hr, HalfPc.isOver], nofun⟩
  | wrote _ hr _ =>
    exact ⟨rfl, rfl, rfl, rfl, rfl, rfl, by simp [hr, HalfPc.isOver],
      fun rest hd => absurd hd (hresume _ rest)⟩
  | blocked _ _ => exact ⟨rfl, rfl, rfl, rfl, rfl, rfl, fun _ => rfl, fun _ => id⟩
  | left _ => exact ⟨rfl, rfl, rfl, rfl, rfl, rfl, fun _ => rfl, fun _ => id⟩

theorem kept_go (c : Copier α β γ) (n : ℕ) (h : Half α β) : Kept h (h.go c n) :=
  kept_goes (go_goes c n h)

theorem Kept.isOver (hk : Kept h h') : h'.src.isOver = h.src.isOver := by
  rw [Pipe.isOver, Pipe.isOver, hk.ended, hk.broken]

/-- What is over stays over, and a broken sink gets nothing more. -/
structure Lasts (h h' : Half α β) : Prop where
  isOver : h.src.isOver = true → h'.src.isOver = true
  broken : h.src.broken = true → h'.src.broken = true
  broken' : h.dst.broken = true → h'.dst.broken = true
  ended' : h.dst.ended = true → h'.dst.ended = true
  left : h.pc.isOver = true → h'.pc.isOver = true
  silent : h.dst.broken = true → h'.dst.sent = h.dst.sent

theorem Lasts.refl (h : Half α β) : Lasts h h := ⟨id, id, id, id, id, fun _ => rfl⟩

theorem silent_goes (hg : Goes c h h') (hb : h.dst.broken = true) : h'.dst.sent = h.dst.sent := by
  cases hg with
  | wrote n _ hno => exact absurd (hno.symm.trans hb) Bool.false_ne_true
  | _ => rfl

theorem lasts_step (hs : Step c h h') : Lasts h h' := by
  cases hs with
  | go n =>
    have hk := kept_go c n h
    exact ⟨fun ho => hk.isOver.trans ho, fun hb => hk.broken.trans hb,
      fun hb => hk.broken'.trans hb, fun he => hk.ended'.trans he, fun hl => by rwa [hk.left hl],
      silent_goes (go_goes c n h)⟩
  | arrive xs _ => exact ⟨id, id, id, id, id, fun _ => rfl⟩
  | finish => exact ⟨fun _ => rfl, id, id, id, id, fun _ => rfl⟩
  | cutSrc => exact ⟨fun _ => Pipe.isOver_cut _, fun _ => rfl, id, id, id, fun _ => rfl⟩
  | cutDst => exact ⟨id, id, fun _ => rfl, id, id, fun _ => rfl⟩
  | collect n => exact ⟨id, id, id, id, id, fun _ => Pipe.sent_take _ n⟩
  | close ys _ _ hys =>
    exact ⟨id, id, id, fun _ => rfl, fun _ => rfl, fun hb => by simp [hys hb]⟩
  | endDst => exact ⟨id, id, id, fun _ => rfl, id, fun _ => rfl⟩
  | returned _ => exact ⟨id, id, id, id, fun _ => rfl, fun _ => rfl⟩
  | giveUp _ => exact ⟨id, id, id, id, fun _ => rfl, fun _ => rfl⟩

/-- What is left to do for a loop whose source is over. -/
def weight (c : Copier α β γ) (h : Half α β) : ℕ :=
  match h.pc with
  | .reading => 2 + h.src.weight c.load
  | .writing _ ys => 3 + (if h.dst.broken then 0 else ys.length) + h.src.weight c.load
  | .left _ => 1
  | .done _ => 0

theorem weight_resume (h : Half α β) (ys : List β) : weight c { h with pc := .resume ys } ≤
    2 + ys.length + h.src.weight c.load := by
  cases ys with
  | nil => exact le_rfl
  | cons y ys =>
    simp only [HalfPc.resume, weight, List.length_cons]
    split <;> omega

/-- A loop whose source is over does not wait, and each run to its next await brings it nearer to
its end. -/
theorem weight_goes (ho : h.src.isOver = true) (hpc : h.pc.isOver = false) (hg : Goes c h h') :
    h'.weight c < h.weight c := by
  cases hg with
  | blocked _ hno => exact absurd (hno.symm.trans ho) Bool.false_ne_true
  | finished hr _ =>
    simp only [weight, hr]
    omega
  | stopped hr _ _ _ =>
    simp only [weight, hr]
    omega
  | @turned k ys hr hk hq hb ht =>
    have hne : h.src.queue.take k ≠ [] := by
      rw [Ne, List.take_eq_nil_iff]
      rintro (rfl | hnil)
      · exact hk.false
      · exact hq hnil
    have hlen := c.turn_length _ _ hne ht
    have hpos : 0 < (h.src.queue.take k).length := List.length_pos_iff.mpr hne
    have hsplit := Pipe.weight_take c.load h.src k hb
    refine (weight_resume ⟨h.src.take k, h.pc, h.dst⟩ ys).trans_lt ?_
    simp only [weight, hr]
    omega
  | refused hr _ =>
    simp only [weight, hr]
    omega
  | @wrote y ys n hr hb =>
    refine (weight_resume ⟨h.src, h.pc, h.dst.put (y :: ys.take n)⟩ (ys.drop n)).trans_lt ?_
    simp only [weight, hr, hb, List.length_drop, Bool.false_eq_true, if_false]
    omega
  | left hover => exact absurd (hpc.symm.trans hover) Bool.false_ne_true

theorem lasts_steps (hs : Relation.ReflTransGen (Step c) h h') : Lasts h h' := by
  induction hs with
  | refl => exact .refl h
  | tail _ hs ih =>
    have hl := lasts_step hs
    exact ⟨hl.isOver ∘ ih.isOver, hl.broken ∘ ih.broken, hl.broken' ∘ ih.broken',
      hl.ended' ∘ ih.ended', hl.left ∘ ih.left,
      fun hb => (hl.silent (ih.broken' hb)).trans (ih.silent hb)⟩

theorem lasts_wake (y : β) (h : Half α β) : Lasts h (h.wake y) := by
  unfold wake
  split
  · next hpc => exact ⟨id, id, id, id, by simp [hpc, HalfPc.isOver], fun _ => rfl⟩
  all_goals exact .refl h

theorem weight_wake (y : β) (h : Half α β) : (h.wake y).weight c ≤ h.weight c + 1 := by
  unfold wake
  split
  · next hpc =>
    simp only [weight, hpc, List.length_nil, ite_self]
    omega
  all_goals exact Nat.le_succ _

theorem weight_step (ho : h.src.isOver = true) (hs : Step c h h') : h'.weight c ≤ h.weight c := by
  cases hs with
  | go n =>
    cases hpc : h.pc.isOver with
    | false => exact (weight_goes ho hpc (go_goes c n h)).le
    | true => rw [(kept_go c n h).left hpc]
  | arrive xs hno => exact absurd (hno.symm.trans ho) Bool.false_ne_true
  | finish => exact le_rfl
  | cutSrc =>
    simp only [weight, Pipe.weight_cut]
    split <;> omega
  | cutDst =>
    simp only [weight, Pipe.cut, if_true]
    split <;> omega
  | collect n => exact le_rfl
  | close ys _ _ _ => exact Nat.zero_le _
  | endDst => exact le_rfl
  | returned _ => exact Nat.zero_le _
  | giveUp _ => exact Nat.zero_le _

theorem exists_done_of_weight (hw : h.weight c = 0) : ∃ rest, h.pc = .done rest := by
  unfold weight at hw
  split at hw
  · omega
  · omega
  · cases hw
  · next rest hpc => exact ⟨rest, hpc⟩

theorem done_step {rest : List β} (hd : h.pc = .done rest) (hs : Step c h h') :
    h'.pc = .done rest := by
  cases hs with
  | go n => rw [(kept_go c n h).left (by simp [hd, HalfPc.isOver]), hd]
  | close ys _ _ _ => simp [hd, HalfPc.rest]
  | returned _ => simp [hd, HalfPc.rest]
  | giveUp _ => simp [hd, HalfPc.rest]
  | _ => exact hd

theorem done_steps {rest : List β} (hd : h.pc = .done rest)
    (hs : Relation.ReflTransGen (Step c) h h') : h'.pc = .done rest := by
  induction hs with
  | refl => exact hd
  | tail _ hs ih => exact done_step ih hs

theorem weight_steps (ho : h.src.isOver = true) (hs : Relation.ReflTransGen (Step c) h h') :
    h'.weight c ≤ h.weight c ∧ h'.src.isOver = true := by
  induction hs with
  | refl => exact ⟨le_rfl, ho⟩
  | tail _ hs ih => exact ⟨(weight_step ih.2 hs).trans ih.1, (lasts_step hs).isOver ih.2⟩

/--
A loop of a larger system comes to its end: its source is over, each of its own steps brings it
nearer to the end, and there are as many of these as there is left to do.
-/
theorem returns {σ ε : Type*} {step : σ → ε → σ} {I : σ → Prop} (half : σ → Half α β)
    (own : ε → Bool) (hI : ∀ s e, I s → I (step s e))
    (hsteps : ∀ s e, Relation.ReflTransGen (Step c) (half s) (half (step s e)))
    (hown : ∀ s e, I s → own e = true → (half s).src.isOver = true → (half s).weight c ≠ 0 →
      (half (step s e)).weight c < (half s).weight c) {s : σ} (h0 : I s)
    (hover : (half s).src.isOver = true) {es : List ε} (hes : (half s).weight c ≤ es.countP own) :
    ∃ rest, (half (Transition.run step s es)).pc = .done rest := by
  refine exists_done_of_weight (Transition.run_spends (fun s => I s ∧ (half s).src.isOver = true)
    (fun s => (half s).weight c) own (fun _ => false)
    (fun s e h => ⟨hI s e h.1, (weight_steps h.2 (hsteps s e)).2⟩) (fun s e h hpos => ?_)
    (fun s e h hzero => Nat.le_zero.mp (hzero ▸ (weight_steps h.2 (hsteps s e)).1)) ⟨h0, hover⟩
    (by simpa using hes))
  cases ho : own e with
  | true => exact Nat.succ_le_of_lt (hown s e h.1 ho h.2 hpos)
  | false => exact (weight_steps h.2 (hsteps s e)).1

end Half

end Splice
