import Urc.Library.QueueReader

/-! # Handlers of a stream that arrives in pieces

A handler takes one item from the input that a state holds. Where the input ends in the middle of
an item it stops, with what it has done so far in the state, and is called again when more has
arrived. If it then goes on as if it had never stopped, the state behind a stream does not depend
on the pieces in which the stream arrives.
-/

/-- What a call of a handler ends with: the item is `done`, `more` input is needed, the state is
`held` by something else than its input, or it is `lost`; then the loop of the handler may still
go on. -/
inductive Verdict
  | done
  | more
  | held
  | lost (goOn : Bool)
  deriving DecidableEq

/-- A call of a handler on a state. -/
abbrev Consumer (σ : Type) := σ → σ × Verdict

/-- A handler goes on where it stopped: what follows the input is left for later calls, and a call
on a state that was left half done is the rest of the call that left it. -/
structure Resumes {σ β : Type} (feed : σ → List β → σ) (h : Consumer σ) : Prop where
  keep : ∀ {s s' v}, h s = (s', v) → v ≠ .more → ∀ r, h (feed s r) = (feed s' r, v)
  more : ∀ {s s'}, h s = (s', .more) → ∀ r, h (feed s r) = h (feed s' r)

/-- The place of the input queue in a state. -/
structure Port (σ Q : Type) where
  get : σ → Q
  set : σ → Q → σ
  get_set : ∀ s q, get (set s q) = q
  set_get : ∀ s, set s (get s) = s
  set_set : ∀ s q q', set (set s q) q' = set s q'

namespace Consumer

variable {σ τ Q Q' α β ι : Type}

/-! ### Handlers from smaller ones -/

def perform (f : σ → σ) : Consumer σ := fun s => (f s, .done)

/-- One read, and what is done with its result. Where it has to wait nothing is done. -/
def readThen [ReadQueue Q β] (port : Port σ Q) (p : σ → SafeReader β α) (k : α → Consumer σ) :
    Consumer σ := fun s =>
  match ReadQueue.fetch (p s) (port.get s) with
  | none => (s, .more)
  | some (a, rest) => k a (port.set s rest)

def andThen (first rest : Consumer σ) : Consumer σ := fun s =>
  match first s with
  | (s', .done) => rest s'
  | r => r

/-- A part that is skipped where the state shows that an earlier call has done it. -/
def phase (todo : σ → Bool) (first rest : Consumer σ) : Consumer σ := fun s =>
  if todo s then first.andThen rest s else rest s

def choose (choice : σ → ι) (h : ι → Consumer σ) : Consumer σ := fun s => h (choice s) s

def rounds (left : σ → Bool) (body : Consumer σ) : ℕ → Consumer σ
  | 0, s => (s, .done)
  | n + 1, s => if left s then body.andThen (rounds left body n) s else (s, .done)

/-- A loop as long as something is left to be done; `count` bounds the number of its rounds. -/
def loopWhile (left : σ → Bool) (count : σ → ℕ) (body : Consumer σ) : Consumer σ := fun s =>
  rounds left body (count s) s

/-! ### What handlers do to a state -/

/-- A relation between the states before and behind a call that sequences of calls keep. -/
structure Frame [ReadQueue Q β] (port : Port σ Q) (R : σ → σ × Verdict → Prop) : Prop where
  done : ∀ s, R s (s, .done)
  more : ∀ s, R s (s, .more)
  trans : ∀ {s s' r}, R s (s', .done) → R s' r → R s r
  fetch : ∀ {α : Type} {p : SafeReader β α} {s a q}, ReadQueue.fetch p (port.get s) = some (a, q) →
    R s (port.set s q, .done)

def Obeys (R : σ → σ × Verdict → Prop) (h : Consumer σ) : Prop := ∀ s, R s (h s)

variable {h first rest body : Consumer σ} {R : σ → σ × Verdict → Prop}

section Frame

variable [ReadQueue Q β] {port : Port σ Q}

theorem frame_field {f : σ → ι} (hf : ∀ s q, f (port.set s q) = f s) :
    Frame port fun s r => f r.1 = f s where
  done := fun _ => rfl
  more := fun _ => rfl
  trans := fun h h' => h'.trans h
  fetch := fun _ => hf _ _

theorem Frame.and {R' : σ → σ × Verdict → Prop} (hR : Frame port R) (hR' : Frame port R') :
    Frame port fun s r => R s r ∧ R' s r where
  done := fun s => ⟨hR.done s, hR'.done s⟩
  more := fun s => ⟨hR.more s, hR'.more s⟩
  trans := fun h h' => ⟨hR.trans h.1 h'.1, hR'.trans h.2 h'.2⟩
  fetch := fun h => ⟨hR.fetch h, hR'.fetch h⟩

theorem Frame.obeys_readThen (hR : Frame port R) {p : σ → SafeReader β α} {k : α → Consumer σ}
    (hk : ∀ a, Obeys R (k a)) : Obeys R (readThen port p k) := by
  intro s
  unfold readThen
  split
  · exact hR.more s
  · next a q hfetch => exact hR.trans (hR.fetch hfetch) (hk a _)

theorem Frame.obeys_andThen (hR : Frame port R) (hfirst : Obeys R first) (hrest : Obeys R rest) :
    Obeys R (first.andThen rest) := by
  intro s
  have h1 := hfirst s
  unfold andThen
  split
  · next s' heq =>
    rw [heq] at h1
    exact hR.trans h1 (hrest s')
  · exact h1

theorem Frame.obeys_phase (hR : Frame port R) {todo : σ → Bool} (hfirst : Obeys R first)
    (hrest : Obeys R rest) : Obeys R (phase todo first rest) := by
  intro s
  unfold phase
  split
  · exact hR.obeys_andThen hfirst hrest s
  · exact hrest s

theorem obeys_choose {choice : σ → ι} {h : ι → Consumer σ} (hh : ∀ i, Obeys R (h i)) :
    Obeys R (choose choice h) := fun s => hh (choice s) s

theorem Frame.obeys_loopWhile (hR : Frame port R) {left : σ → Bool} {count : σ → ℕ}
    (hbody : Obeys R body) : Obeys R (loopWhile left count body) := by
  have hrounds : ∀ n, Obeys R (rounds left body n) := by
    intro n
    induction n with
    | zero => exact hR.done
    | succ n ih =>
      intro s
      unfold rounds
      split
      · exact hR.obeys_andThen hbody ih s
      · exact hR.done s
  exact fun s => hrounds _ s

theorem readThen_done {p : σ → SafeReader β α} {k : α → Consumer σ} {s s' : σ}
    (h : readThen port p k s = (s', .done)) :
    ∃ a q, ReadQueue.fetch (p s) (port.get s) = some (a, q) ∧ k a (port.set s q) = (s', .done) := by
  unfold readThen at h
  split at h
  · cases h
  · next a q hfetch => exact ⟨a, q, hfetch, h⟩

end Frame

theorem andThen_done {s s' : σ} (h : first.andThen rest s = (s', .done)) :
    ∃ s₁, first s = (s₁, .done) ∧ rest s₁ = (s', .done) := by
  unfold andThen at h
  split at h
  · next s₁ h₁ => exact ⟨s₁, h₁, h⟩
  · next hne => exact absurd h (hne s')

theorem andThen_more {s s' : σ} (h : first.andThen rest s = (s', .more)) :
    first s = (s', .more) ∨ ∃ s₁, first s = (s₁, .done) ∧ rest s₁ = (s', .more) := by
  unfold andThen at h
  split at h
  · next s₁ h₁ => exact .inr ⟨s₁, h₁, h⟩
  · exact .inl h

/-! ### What a waiting handler keeps -/

/-- A handler that waits has left a part of the state as it was. -/
def KeepsWaiting (f : σ → ι) (h : Consumer σ) : Prop := ∀ s s', h s = (s', .more) → f s' = f s

section KeepsWaiting

variable {f : σ → ι}

theorem stays_of_forall (hh : ∀ s, (h s).2 ≠ .more) : KeepsWaiting f h := by
  intro s s' heq
  exact absurd (by rw [heq]) (hh s)

theorem stays_perform (g : σ → σ) : KeepsWaiting f (perform g) :=
  stays_of_forall fun _ => by simp [perform]

theorem stays_readThen [ReadQueue Q β] {port : Port σ Q} (hf : ∀ s q, f (port.set s q) = f s)
    {p : σ → SafeReader β α} {k : α → Consumer σ} (hk : ∀ a, KeepsWaiting f (k a)) :
    KeepsWaiting f (readThen port p k) := by
  intro s s' heq
  unfold readThen at heq
  split at heq
  · cases heq
    rfl
  · next a q _ => rw [hk a _ _ heq, hf]

theorem stays_andThen (hfirst : Obeys (fun s r => f r.1 = f s) first)
    (hrest : KeepsWaiting f rest) :
    KeepsWaiting f (first.andThen rest) := by
  intro s s' heq
  obtain h | ⟨s₁, h₁, h⟩ := andThen_more heq
  · simpa only [h] using hfirst s
  · rw [hrest _ _ h]
    simpa only [h₁] using hfirst s

theorem stays_phase {todo : σ → Bool} (hfirst : Obeys (fun s r => f r.1 = f s) first)
    (hrest : KeepsWaiting f rest) : KeepsWaiting f (phase todo first rest) := by
  intro s s' heq
  unfold phase at heq
  split at heq
  · exact stays_andThen hfirst hrest s s' heq
  · exact hrest s s' heq

theorem stays_choose {choice : σ → α} {h : α → Consumer σ} (hh : ∀ i, KeepsWaiting f (h i)) :
    KeepsWaiting f (choose choice h) := fun s s' heq => hh (choice s) s s' heq

end KeepsWaiting

/-! ### Going on -/

variable {feed : σ → List β → σ}

/-- A handler that never waits, and that does not look at its input. -/
def Instant (port : Port σ Q) (h : Consumer σ) : Prop :=
  ∀ s, (h s).2 ≠ .more ∧ ∀ q, h (port.set s q) = (port.set (h s).1 q, (h s).2)

theorem instant_perform {port : Port σ Q} {f : σ → σ}
    (hf : ∀ s q, f (port.set s q) = port.set (f s) q) :
    Instant port (perform f) := fun s => ⟨by simp [perform], fun q => by simp only [perform, hf]⟩

theorem Instant.comp {port : Port σ Q} (hh : Instant port h) {f : σ → σ}
    (hf : ∀ s q, f (port.set s q) = port.set (f s) q) : Instant port fun s => h (f s) :=
  fun s => ⟨(hh (f s)).1, fun q => by simp only [hf, (hh (f s)).2]⟩

theorem Instant.stays {port : Port σ Q} (hh : Instant port h) (f : σ → ι) : KeepsWaiting f h :=
  stays_of_forall fun s => (hh s).1

theorem Instant.get {port : Port σ Q} (hh : Instant port h) (s : σ) :
    port.get (h s).1 = port.get s := by
  have hs := (hh s).2 (port.get s)
  rw [port.set_get] at hs
  rw [congrArg Prod.fst hs, port.get_set]

/-- A port of a list takes what arrives at the end of the list. -/
def feedAt (port : Port σ (List β)) (s : σ) (r : List β) : σ := port.set s (port.get s ++ r)

theorem Instant.feedAt {port : Port σ (List β)} (hh : Instant port h) (s : σ) (r : List β) :
    h (feedAt port s r) = (Consumer.feedAt port (h s).1 r, (h s).2) := by
  rw [Consumer.feedAt, (hh s).2, Consumer.feedAt, hh.get]

theorem Instant.resumes {port : Port σ (List β)} (hh : Instant port h) :
    Resumes (Consumer.feedAt port) h where
  keep := by
    intro s s' v heq _ r
    rw [hh.feedAt, heq]
  more := by
    intro s s' heq
    exact absurd (by rw [heq]) (hh s).1

theorem readThen_more [ReadQueue Q β] {port : Port σ Q} {p : σ → SafeReader β α}
    {k : α → Consumer σ} {s s' : σ} (hk : ∀ a, Instant port (k a))
    (h : readThen port p k s = (s', .more)) :
    s' = s ∧ ReadQueue.fetch (p s) (port.get s) = none := by
  unfold readThen at h
  split at h
  · next hfetch =>
    cases h
    exact ⟨rfl, hfetch⟩
  · next a rest _ => exact absurd (by rw [h]) (hk a (port.set s rest)).1

theorem resumes_readThen {port : Port σ (List β)} {p : σ → SafeReader β α} {k : α → Consumer σ}
    (hp : ∀ s q, p (port.set s q) = p s) (hk : ∀ a, Instant port (k a)) :
    Resumes (feedAt port) (readThen port p k) where
  keep := by
    intro s s' v heq hv r
    unfold readThen at heq ⊢
    simp only [feedAt, hp, port.get_set]
    split at heq
    · cases heq
      exact absurd rfl hv
    · next a rest hfetch =>
      have happend := SafeReader.exec_append hfetch r
      simp only [ReadQueue.fetch, happend, port.set_set]
      have hnext := (hk a).feedAt (port.set s rest) r
      rw [heq] at hnext
      simpa only [feedAt, port.get_set, port.set_set] using hnext
  more := by
    intro s s' heq r
    unfold readThen at heq
    split at heq
    · cases heq
      rfl
    · next a rest _ => exact absurd (by rw [heq]) (hk a (port.set s rest)).1

theorem keep_andThen {s s' : σ} {v : Verdict} {r : List β} (hfirst : Resumes feed first)
    (heq : first.andThen rest s = (s', v)) (hv : v ≠ .more)
    (hrest : ∀ s₁, first s = (s₁, .done) → rest s₁ = (s', v) → rest (feed s₁ r) = (feed s' r, v)) :
    first.andThen rest (feed s r) = (feed s' r, v) := by
  unfold andThen at heq ⊢
  rcases hf : first s with ⟨s₁, _ | _ | _ | _⟩
  · rw [hf] at heq
    rw [hfirst.keep hf (by simp) r]
    exact hrest s₁ hf heq
  · rw [hf] at heq
    cases heq
    exact absurd rfl hv
  · rw [hf] at heq
    cases heq
    rw [hfirst.keep hf (by simp) r]
  · rw [hf] at heq
    cases heq
    rw [hfirst.keep hf (by simp) r]

theorem more_andThen {s s' : σ} (hfirst : Resumes feed first)
    (heq : first.andThen rest s = (s', .more)) (r : List β) :
    (first s = (s', .more) ∧ first.andThen rest (feed s r) = first.andThen rest (feed s' r)) ∨
      ∃ s₁, first s = (s₁, .done) ∧ rest s₁ = (s', .more) ∧
        first.andThen rest (feed s r) = rest (feed s₁ r) := by
  obtain hs' | ⟨s₁, h₁, hs'⟩ := andThen_more heq
  · exact .inl ⟨hs', by rw [andThen, andThen, hfirst.more hs' r]⟩
  · exact .inr ⟨s₁, h₁, hs', by rw [andThen, hfirst.keep h₁ (by simp) r]⟩

theorem resumes_phase {todo : σ → Bool} (htodo : ∀ s r, todo (feed s r) = todo s)
    (hfirst : Resumes feed first) (hrest : Resumes feed rest)
    (hstuck : ∀ s s', todo s = true → first s = (s', .more) → todo s' = true)
    (hleft : ∀ s s', (todo s = true → ∃ s₀, first s₀ = (s, .done)) → rest s = (s', .more) →
      todo s' = false) :
    Resumes feed (phase todo first rest) where
  keep := by
    intro s s' v heq hv r
    unfold phase at heq ⊢
    rw [htodo]
    split_ifs at heq ⊢
    · exact keep_andThen hfirst heq hv fun s₁ _ h => hrest.keep h hv r
    · exact hrest.keep heq hv r
  more := by
    intro s s' heq r
    unfold phase at heq ⊢
    rw [htodo, htodo]
    split at heq
    · next hd =>
      rw [if_pos hd]
      obtain ⟨hs', h⟩ | ⟨s₁, h₁, hs', h⟩ := more_andThen hfirst heq r
      · rw [h, hstuck s s' hd hs', if_pos rfl]
      · rw [h, hleft s₁ s' (fun _ => ⟨s, h₁⟩) hs', if_neg (by simp)]
        exact hrest.more hs' r
    · next hd =>
      rw [if_neg hd, hleft s s' (fun htodo => absurd htodo hd) heq, if_neg (by simp)]
      exact hrest.more heq r

theorem resumes_andThen {port : Port σ (List β)} (hfirst : Resumes (feedAt port) first)
    (hrest : Instant port rest) : Resumes (feedAt port) (first.andThen rest) where
  keep := fun heq hv r => keep_andThen hfirst heq hv fun _ _ h => hrest.resumes.keep h hv r
  more := by
    intro s s' heq r
    obtain ⟨-, h⟩ | ⟨s₁, -, hs', -⟩ := more_andThen hfirst heq r
    · exact h
    · exact absurd (congrArg Prod.snd hs') (hrest s₁).1

theorem resumes_choose {choice : σ → ι} {h : ι → Consumer σ}
    (hchoice : ∀ s r, choice (feed s r) = choice s) (hh : ∀ i, Resumes feed (h i))
    (hstay : ∀ s s', h (choice s) s = (s', .more) → choice s' = choice s) :
    Resumes feed (choose choice h) where
  keep := by
    intro s s' v heq hv r
    unfold choose at heq ⊢
    rw [hchoice, (hh _).keep heq hv r]
  more := by
    intro s s' heq r
    unfold choose at heq ⊢
    rw [hchoice, hchoice, hstay s s' heq, (hh _).more heq r]

theorem rounds_eq {left : σ → Bool} {count : σ → ℕ} (hpos : ∀ s, left s = true → 0 < count s)
    (hdone : ∀ s s', left s = true → body s = (s', .done) → count s' < count s) {s : σ} {n m : ℕ}
    (hn : count s ≤ n) (hm : count s ≤ m) : rounds left body n s = rounds left body m s := by
  induction n generalizing s m with
  | zero =>
    have h0 : left s = false := by
      by_contra h
      have := hpos s (by simpa using h)
      omega
    cases m <;> simp [rounds, h0]
  | succ n ih =>
    cases hleft : left s with
    | false => cases m <;> simp [rounds, hleft]
    | true =>
      have := hpos s hleft
      cases m with
      | zero => omega
      | succ m =>
        simp only [rounds, hleft, if_true]
        unfold andThen
        split
        · next s' heq =>
          have := hdone s s' hleft heq
          exact ih (by omega) (by omega)
        · rfl

section Loop

variable {left : σ → Bool} {count : σ → ℕ} {s s' : σ}

theorem loopWhile_of_not_left (h : left s = false) : loopWhile left count body s = (s, .done) := by
  unfold loopWhile
  cases count s <;> simp [rounds, h]

variable (hpos : ∀ s, left s = true → 0 < count s)
  (hdone : ∀ s s', left s = true → body s = (s', .done) → count s' < count s)

include hpos hdone

theorem loopWhile_of_left (h : left s = true) :
    loopWhile left count body s = body.andThen (loopWhile left count body) s := by
  have hs := hpos s h
  unfold loopWhile
  rw [show count s = count s - 1 + 1 by omega]
  simp only [rounds, h, if_true]
  unfold andThen
  split
  · next s' heq =>
    have := hdone s s' h heq
    exact rounds_eq hpos hdone (by omega) le_rfl
  · rfl

theorem left_of_more (hmore : ∀ s s', left s = true → body s = (s', .more) → left s' = true)
    (heq : loopWhile left count body s = (s', .more)) : left s' = true := by
  induction hc : count s using Nat.strongRecOn generalizing s with
  | _ c ih =>
    cases hleft : left s with
    | false =>
      rw [loopWhile_of_not_left hleft] at heq
      cases heq
    | true =>
      rw [loopWhile_of_left hpos hdone hleft] at heq
      unfold andThen at heq
      split at heq
      · next s₁ h₁ => exact ih _ (hc ▸ hdone s s₁ hleft h₁) heq rfl
      · exact hmore s s' hleft heq

theorem not_left_of_done (heq : loopWhile left count body s = (s', .done)) : left s' = false := by
  induction hc : count s using Nat.strongRecOn generalizing s with
  | _ c ih =>
    cases hleft : left s with
    | false =>
      rw [loopWhile_of_not_left hleft] at heq
      cases heq
      exact hleft
    | true =>
      rw [loopWhile_of_left hpos hdone hleft] at heq
      obtain ⟨s₁, h₁, h⟩ := andThen_done heq
      exact ih _ (hc ▸ hdone s s₁ hleft h₁) h rfl

theorem resumes_loopWhile (hfeed : ∀ s r, left (feed s r) = left s) (hbody : Resumes feed body)
    (hmore : ∀ s s', left s = true → body s = (s', .more) → left s' = true) :
    Resumes feed (loopWhile left count body) where
  keep := by
    intro s s' v heq hv r
    induction hc : count s using Nat.strongRecOn generalizing s with
    | _ c ih =>
      cases hleft : left s with
      | false =>
        rw [loopWhile_of_not_left hleft] at heq
        cases heq
        rw [loopWhile_of_not_left (by rw [hfeed, hleft])]
      | true =>
        rw [loopWhile_of_left hpos hdone hleft] at heq
        rw [loopWhile_of_left hpos hdone (by rw [hfeed, hleft])]
        exact keep_andThen hbody heq hv fun s₁ h₁ h => ih _ (hc ▸ hdone s s₁ hleft h₁) h rfl
  more := by
    intro s s' heq r
    induction hc : count s using Nat.strongRecOn generalizing s with
    | _ c ih =>
      cases hleft : left s with
      | false =>
        rw [loopWhile_of_not_left hleft] at heq
        cases heq
      | true =>
        rw [loopWhile_of_left hpos hdone hleft] at heq
        rw [loopWhile_of_left hpos hdone (by rw [hfeed, hleft])]
        obtain ⟨hs', h⟩ | ⟨s₁, h₁, hs', h⟩ := more_andThen hbody heq r
        · rw [h, loopWhile_of_left hpos hdone (by rw [hfeed, hmore s s' hleft hs'])]
        · rw [h]
          exact ih _ (hc ▸ hdone s s₁ hleft h₁) hs' rfl

end Loop

/-- A counter that is set once and then counted down. -/
theorem resumes_countdown {f : σ → ℕ} (hf : ∀ s r, f (feed s r) = f s)
    (hfirst : Resumes feed first) (hstuck : KeepsWaiting f first) (hbody : Resumes feed body)
    (hmore : KeepsWaiting f body) (hdone : ∀ s s', f s ≠ 0 → body s = (s', .done) → f s' < f s) :
    Resumes feed (phase (fun s => f s = 0) first (loopWhile (fun s => f s ≠ 0) f body)) := by
  have hpos : ∀ s, decide (f s ≠ 0) = true → 0 < f s := by
    intro s h
    exact Nat.pos_of_ne_zero (of_decide_eq_true h)
  have hcount : ∀ s s', decide (f s ≠ 0) = true → body s = (s', .done) → f s' < f s :=
    fun s s' h => hdone s s' (of_decide_eq_true h)
  have hleft : ∀ s s', decide (f s ≠ 0) = true → body s = (s', .more) →
      decide (f s' ≠ 0) = true := by
    intro s s' h heq
    rw [hmore s s' heq]
    exact h
  refine resumes_phase (fun s r => by rw [hf]) hfirst
    (resumes_loopWhile hpos hcount (fun s r => by rw [hf]) hbody hleft) ?_ ?_
  · intro s s' h heq
    rw [hstuck s s' heq]
    exact h
  · intro s s' _ heq
    have := left_of_more hpos hcount hleft heq
    simpa using this

/-! ### The same handler on other states -/

variable {σ' : Type}

/-- A handler does to the image of a state what another one does to the state. -/
def Follows (F : σ → σ') (h : Consumer σ) (h' : Consumer σ') : Prop :=
  ∀ s, h' (F s) = (F (h s).1, (h s).2)

/-- The image of a state holds an input queue that looks the same to every reader. -/
structure PortHom [ReadQueue Q β] [ReadQueue Q' β] (port : Port σ Q) (port' : Port σ' Q')
    (F : σ → σ') (f : Q → Q') : Prop extends QueueHom f where
  get : ∀ s, port'.get (F s) = f (port.get s)
  set : ∀ s q, port'.set (F s) (f q) = F (port.set s q)

section Follows

variable {F : σ → σ'} {h' first' rest' body' : Consumer σ'}

theorem follows_perform {g : σ → σ} {g' : σ' → σ'} (hg : ∀ s, g' (F s) = F (g s)) :
    Follows F (perform g) (perform g') := by
  intro s
  simp only [perform, hg]

theorem Follows.comp (hh : Follows F h h') {g : σ → σ} {g' : σ' → σ'}
    (hg : ∀ s, g' (F s) = F (g s)) : Follows F (fun s => h (g s)) fun s => h' (g' s) := by
  intro s
  dsimp only
  rw [hg]
  exact hh (g s)

theorem follows_readThen [ReadQueue Q β] [ReadQueue Q' β] {port : Port σ Q} {port' : Port σ' Q'}
    {f : Q → Q'} (hF : PortHom port port' F f) {p : σ → SafeReader β α} {p' : σ' → SafeReader β α}
    {k : α → Consumer σ} {k' : α → Consumer σ'} (hp : ∀ s, p' (F s) = p s)
    (hk : ∀ a, Follows F (k a) (k' a)) : Follows F (readThen port p k) (readThen port' p' k') := by
  intro s
  unfold readThen
  rw [hp, hF.get, hF.fetch]
  cases ReadQueue.fetch (p s) (port.get s) with
  | none => rfl
  | some r =>
    obtain ⟨a, q⟩ := r
    simp only [Option.map_some, hF.set]
    exact hk a _

theorem follows_andThen (hfirst : Follows F first first') (hrest : Follows F rest rest') :
    Follows F (first.andThen rest) (first'.andThen rest') := by
  intro s
  unfold andThen
  rw [hfirst s]
  rcases first s with ⟨s₁, _ | _ | _ | _⟩
  · exact hrest s₁
  · rfl
  · rfl
  · rfl

theorem follows_phase {todo : σ → Bool} {todo' : σ' → Bool} (htodo : ∀ s, todo' (F s) = todo s)
    (hfirst : Follows F first first') (hrest : Follows F rest rest') :
    Follows F (phase todo first rest) (phase todo' first' rest') := by
  intro s
  unfold phase
  rw [htodo]
  split
  · exact follows_andThen hfirst hrest s
  · exact hrest s

theorem follows_choose {choice : σ → ι} {choice' : σ' → ι} {h : ι → Consumer σ}
    {h' : ι → Consumer σ'} (hchoice : ∀ s, choice' (F s) = choice s)
    (hh : ∀ i, Follows F (h i) (h' i)) : Follows F (choose choice h) (choose choice' h') := by
  intro s
  unfold choose
  rw [hchoice]
  exact hh _ s

theorem follows_loopWhile {left : σ → Bool} {left' : σ' → Bool} {count : σ → ℕ} {count' : σ' → ℕ}
    (hleft : ∀ s, left' (F s) = left s) (hcount : ∀ s, count' (F s) = count s)
    (hbody : Follows F body body') :
    Follows F (loopWhile left count body) (loopWhile left' count' body') := by
  have hrounds : ∀ n, Follows F (rounds left body n) (rounds left' body' n) := by
    intro n
    induction n with
    | zero => exact fun _ => rfl
    | succ n ih =>
      intro s
      unfold rounds
      rw [hleft]
      split
      · exact follows_andThen hbody ih s
      · rfl
  intro s
  unfold loopWhile
  rw [hcount]
  exact hrounds _ s

end Follows

end Consumer

/-- A handler with the states that it works on. A state is `waiting` if it holds input, and `alive`
until it is lost. Every call that the loop goes on from brings the `measure` down. -/
structure StreamHandler (σ β : Type) where
  feed : σ → List β → σ
  handle : σ → σ × Verdict
  held : σ → Bool
  waiting : σ → Bool
  alive : σ → Bool
  measure : σ → ℕ
  feed_nil : ∀ s, feed s [] = s
  feed_feed : ∀ s a b, feed (feed s a) b = feed s (a ++ b)
  held_feed : ∀ s r, held (feed s r) = held s
  alive_feed : ∀ s r, alive (feed s r) = alive s
  waiting_feed : ∀ s r, waiting (feed s r) = (waiting s || !r.isEmpty)
  resumes : Resumes feed handle
  measure_lt : ∀ {s s' v}, waiting s = true → handle s = (s', v) → v = .done ∨ v = .lost true →
    measure s' < measure s
  held_handle : ∀ {s s' v}, held s = false → handle s = (s', v) → held s' = decide (v = .held)
  alive_handle : ∀ {s s' v}, handle s = (s', v) →
    alive s' = (alive s && decide (v ≠ .lost true ∧ v ≠ .lost false))

namespace StreamHandler

variable {σ β : Type} (H : StreamHandler σ β)

def ready (s : σ) : Bool := !H.held s && H.waiting s

def loop : ℕ → σ → σ
  | 0, s => s
  | fuel + 1, s =>
    if H.ready s then
      match H.handle s with
      | (s', .done) | (s', .lost true) => loop fuel s'
      | (s', .more) | (s', .held) | (s', .lost false) => s'
    else s

def drain (s : σ) : σ := H.loop (H.measure s + 1) s

/-- A piece of the stream arrives. -/
def receive (s : σ) (piece : List β) : σ := if H.alive s then H.drain (H.feed s piece) else s

variable {H} {s s' : σ} {r : List β}

theorem loop_of_not_ready (h : H.ready s = false) (fuel : ℕ) : H.loop fuel s = s := by
  cases fuel with
  | zero => rfl
  | succ fuel => simp [loop, h]

/-- The loop has calls enough: it does not depend on their number. -/
theorem loop_eq {fuel fuel' : ℕ} (h : H.measure s < fuel) (h' : H.measure s < fuel') :
    H.loop fuel s = H.loop fuel' s := by
  induction fuel generalizing s fuel' with
  | zero => omega
  | succ fuel ih =>
    cases fuel' with
    | zero => omega
    | succ fuel' =>
      simp only [loop]
      cases hready : H.ready s with
      | false => rfl
      | true =>
        have hwait : H.waiting s = true := by
          simp only [ready, Bool.and_eq_true] at hready
          exact hready.2
        rcases hh : H.handle s with ⟨s', v⟩
        have hlt := H.measure_lt hwait hh
        rcases v with _ | _ | _ | (_ | _)
        · have := hlt (by simp)
          exact ih (by omega) (by omega)
        · rfl
        · rfl
        · rfl
        · have := hlt (by simp)
          exact ih (by omega) (by omega)

theorem drain_of_not_ready (h : H.ready s = false) : H.drain s = s := loop_of_not_ready h _

theorem drain_of_ready (h : H.ready s = true) : H.drain s =
    match H.handle s with
    | (s', .done) | (s', .lost true) => H.drain s'
    | (s', .more) | (s', .held) | (s', .lost false) => s' := by
  have hwait : H.waiting s = true := by
    simp only [ready, Bool.and_eq_true] at h
    exact h.2
  rcases hh : H.handle s with ⟨s', v⟩
  have hlt := H.measure_lt hwait hh
  unfold drain
  simp only [loop, h, if_true, hh]
  rcases v with _ | _ | _ | (_ | _)
  · exact loop_eq (hlt (by simp)) (Nat.lt_succ_self _)
  · rfl
  · rfl
  · rfl
  · exact loop_eq (hlt (by simp)) (Nat.lt_succ_self _)

theorem ready_feed (h : H.ready s = true) (r : List β) : H.ready (H.feed s r) = true := by
  unfold ready at h ⊢
  rw [H.held_feed, H.waiting_feed]
  simp only [Bool.and_eq_true] at h ⊢
  exact ⟨h.1, by rw [h.2, Bool.true_or]⟩

/-- A loop that stops for want of input goes on, when more arrives, as if it had been there from
the beginning. -/
theorem drain_feed (s : σ) (r : List β) (halive : H.alive (H.drain s) = true) :
    H.drain (H.feed (H.drain s) r) = H.drain (H.feed s r) := by
  induction hm : H.measure s using Nat.strongRecOn generalizing s with
  | _ m ih =>
    cases hready : H.ready s with
    | false => rw [drain_of_not_ready hready]
    | true =>
      have hwait : H.waiting s = true := by
        simp only [ready, Bool.and_eq_true] at hready
        exact hready.2
      have hheld : H.held s = false := by
        simp only [ready, Bool.and_eq_true, Bool.not_eq_true'] at hready
        exact hready.1
      rcases hh : H.handle s with ⟨s', v⟩
      have hkeep := fun hv => H.resumes.keep hh hv r
      have hfeed := drain_of_ready (ready_feed hready r)
      rw [drain_of_ready hready, hh] at halive ⊢
      rcases v with _ | _ | _ | (_ | _) <;> dsimp only at halive ⊢
      · rw [hfeed, hkeep (by simp)]
        exact ih _ (hm ▸ H.measure_lt hwait hh (by simp)) s' halive rfl
      · cases hnext : H.waiting (H.feed s' r) with
        | true =>
          have hr : H.ready (H.feed s' r) = true := by
            simpa [ready, hnext, H.held_feed] using H.held_handle hheld hh
          rw [hfeed, drain_of_ready hr, H.resumes.more hh r]
        | false =>
          -- nothing has arrived
          have hnil : H.waiting s' = false ∧ r = [] := by simpa [H.waiting_feed] using hnext
          obtain ⟨hs', rfl⟩ := hnil
          rw [H.feed_nil, H.feed_nil, drain_of_ready hready, hh]
          exact drain_of_not_ready (by rw [ready, hs', Bool.and_false])
      · have hs' : H.held s' = true := by simpa using H.held_handle hheld hh
        rw [hfeed, hkeep (by simp)]
        refine drain_of_not_ready ?_
        rw [ready, H.held_feed, hs', Bool.not_true, Bool.false_and]
      · have hdead : H.alive s' = false := by simpa using H.alive_handle hh
        exact absurd (hdead.symm.trans halive) Bool.false_ne_true
      · rw [hfeed, hkeep (by simp)]
        exact ih _ (hm ▸ H.measure_lt hwait hh (by simp)) s' halive rfl

/-- A fact about states that lasts once it holds, and that no call which waits for more has brought
about. -/
structure Lasting (H : StreamHandler σ β) (P : σ → Prop) : Prop where
  feed : ∀ {s} r, P s → P (H.feed s r)
  handle : ∀ {s s' v}, H.handle s = (s', v) → P s → P s'
  more : ∀ {s s'}, H.handle s = (s', .more) → P s' → P s

section Lasting

variable {P : σ → Prop} (hP : H.Lasting P)

include hP

theorem Lasting.drain (hs : P s) : P (H.drain s) := by
  induction hm : H.measure s using Nat.strongRecOn generalizing s with
  | _ m ih =>
    cases hready : H.ready s with
    | false => rwa [drain_of_not_ready hready]
    | true =>
      rw [drain_of_ready hready]
      rcases hh : H.handle s with ⟨s', v⟩
      have hs' := hP.handle hh hs
      have hwait : H.waiting s = true := by
        simp only [ready, Bool.and_eq_true] at hready
        exact hready.2
      rcases v with _ | _ | _ | (_ | _)
      · exact ih _ (hm ▸ H.measure_lt hwait hh (by simp)) hs' rfl
      · exact hs'
      · exact hs'
      · exact hs'
      · exact ih _ (hm ▸ H.measure_lt hwait hh (by simp)) hs' rfl

/-- What the loop has brought about, it brings about whatever follows. -/
theorem Lasting.drain_feed (hs : P (H.drain s)) (r : List β) : P (H.drain (H.feed s r)) := by
  induction hm : H.measure s using Nat.strongRecOn generalizing s with
  | _ m ih =>
    cases hready : H.ready s with
    | false =>
      rw [drain_of_not_ready hready] at hs
      exact hP.drain (hP.feed r hs)
    | true =>
      have hwait : H.waiting s = true := by
        simp only [ready, Bool.and_eq_true] at hready
        exact hready.2
      rcases hh : H.handle s with ⟨s', v⟩
      have hkeep := fun hv => H.resumes.keep hh hv r
      have hfeed := drain_of_ready (ready_feed hready r)
      rw [drain_of_ready hready, hh] at hs
      rcases v with _ | _ | _ | (_ | _) <;> dsimp only at hs
      · rw [hfeed, hkeep (by simp)]
        exact ih _ (hm ▸ H.measure_lt hwait hh (by simp)) hs rfl
      · exact hP.drain (hP.feed r (hP.more hh hs))
      · rw [hfeed, hkeep (by simp)]
        exact hP.feed r hs
      · rw [hfeed, hkeep (by simp)]
        exact hP.feed r hs
      · rw [hfeed, hkeep (by simp)]
        exact ih _ (hm ▸ H.measure_lt hwait hh (by simp)) hs rfl

end Lasting

end StreamHandler
