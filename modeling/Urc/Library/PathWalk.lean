import Urc.Library.FileTree

/-! # Path resolution

Resolving a path walks down from a directory, one component at a time, and follows the
symbolic links that it meets; a budget bounds their number. The walk only looks at shapes,
so it is defined over any function from physical paths to shapes.
-/

namespace FileTree

/--
The end of a walk: at a node, in a directory that lacks the next name (with the components after
it), or with an error.
-/
inductive Walk (N : Type*)
  | found (p : List N)
  | missing (d : List N) (n : N) (rest : List (Component N))
  | failed
  deriving DecidableEq

variable {N B : Type*}

/-- The walk up to the next link, which is handed to `follow` with the components left. -/
def scan (ok : N → Bool) (f : List N → Option (Shape N))
    (follow : List N → List (Component N) → Walk N) : List N → List (Component N) → Walk N
  | cur, [] => .found cur
  | cur, c :: todo =>
    match f cur, c with
    | some .dir, .rootDir => scan ok f follow [] todo
    | some .dir, .curDir => scan ok f follow cur todo
    | some .dir, .parentDir => scan ok f follow cur.dropLast todo
    | some .dir, .normal n =>
      if ok n then
        match f (cur ++ [n]) with
        | none => .missing cur n todo
        | some (.link target) => follow cur (target ++ todo)
        | some _ => scan ok f follow (cur ++ [n]) todo
      else .failed
    | _, _ => .failed

/-- The walk that may follow fewer than `k` links. -/
def walk (ok : N → Bool) (f : List N → Option (Shape N)) :
    ℕ → List N → List (Component N) → Walk N
  | 0, _, _ => .failed
  | k + 1, cur, todo => scan ok f (walk ok f k) cur todo

/-- The derivations of walks, with one rule for each way in which a walk goes on or ends. -/
inductive Resolves (ok : N → Bool) (f : List N → Option (Shape N)) :
    ℕ → List N → List (Component N) → Walk N → Prop
  | spent {cur : List N} {todo : List (Component N)} : Resolves ok f 0 cur todo .failed
  | done {k : ℕ} {cur : List N} : Resolves ok f (k + 1) cur [] (.found cur)
  | notDir {k : ℕ} {cur : List N} {c : Component N} {todo : List (Component N)}
      (h : f cur ≠ some .dir) : Resolves ok f (k + 1) cur (c :: todo) .failed
  | rootDir {k : ℕ} {cur : List N} {todo : List (Component N)} {r : Walk N}
      (h : f cur = some .dir) (hr : Resolves ok f (k + 1) [] todo r) :
      Resolves ok f (k + 1) cur (.rootDir :: todo) r
  | curDir {k : ℕ} {cur : List N} {todo : List (Component N)} {r : Walk N}
      (h : f cur = some .dir) (hr : Resolves ok f (k + 1) cur todo r) :
      Resolves ok f (k + 1) cur (.curDir :: todo) r
  | parentDir {k : ℕ} {cur : List N} {todo : List (Component N)} {r : Walk N}
      (h : f cur = some .dir) (hr : Resolves ok f (k + 1) cur.dropLast todo r) :
      Resolves ok f (k + 1) cur (.parentDir :: todo) r
  | badName {k : ℕ} {cur : List N} {n : N} {todo : List (Component N)}
      (h : f cur = some .dir) (hn : ok n = false) :
      Resolves ok f (k + 1) cur (.normal n :: todo) .failed
  | missing {k : ℕ} {cur : List N} {n : N} {todo : List (Component N)}
      (h : f cur = some .dir) (hn : ok n = true) (hf : f (cur ++ [n]) = none) :
      Resolves ok f (k + 1) cur (.normal n :: todo) (.missing cur n todo)
  | link {k : ℕ} {cur : List N} {n : N} {todo target : List (Component N)} {r : Walk N}
      (h : f cur = some .dir) (hn : ok n = true) (hf : f (cur ++ [n]) = some (.link target))
      (hr : Resolves ok f k cur (target ++ todo) r) :
      Resolves ok f (k + 1) cur (.normal n :: todo) r
  | enter {k : ℕ} {cur : List N} {n : N} {todo : List (Component N)} {s : Shape N} {r : Walk N}
      (h : f cur = some .dir) (hn : ok n = true) (hf : f (cur ++ [n]) = some s)
      (hs : ∀ target, s ≠ .link target) (hr : Resolves ok f (k + 1) (cur ++ [n]) todo r) :
      Resolves ok f (k + 1) cur (.normal n :: todo) r

variable {ok : N → Bool} {f g : List N → Option (Shape N)} {k : ℕ} {cur d p : List N} {n : N}
  {todo rest : List (Component N)}

theorem resolves_walk (ok : N → Bool) (f : List N → Option (Shape N)) (k : ℕ) (cur : List N)
    (todo : List (Component N)) : Resolves ok f k cur todo (walk ok f k cur todo) := by
  induction k generalizing cur todo with
  | zero => exact .spent
  | succ k ihk =>
    induction todo generalizing cur with
    | nil => exact .done
    | cons c todo ih =>
      simp only [walk] at ih ⊢
      by_cases hcur : f cur = some .dir
      · cases c with
        | rootDir => simpa only [scan, hcur] using Resolves.rootDir hcur (ih [])
        | curDir => simpa only [scan, hcur] using Resolves.curDir hcur (ih cur)
        | parentDir => simpa only [scan, hcur] using Resolves.parentDir hcur (ih cur.dropLast)
        | normal n =>
          simp only [scan, hcur]
          split_ifs with hn
          · split
            · rename_i hf
              exact .missing hcur hn hf
            · rename_i target hf
              exact .link hcur hn hf (ihk cur _)
            · rename_i s hs hf
              exact .enter hcur hn hf hs (ih _)
          · exact .badName hcur (by simpa using hn)
      · have hfail : scan ok f (walk ok f k) cur (c :: todo) = .failed := by
          unfold scan
          split <;> simp_all
        rw [hfail]
        exact .notDir hcur

theorem Resolves.eq {r : Walk N} (h : Resolves ok f k cur todo r) : walk ok f k cur todo = r := by
  induction h with
  | spent => rfl
  | done => rfl
  | @notDir k cur c todo h =>
    simp only [walk]
    unfold scan
    split <;> simp_all
  | rootDir h _ ih => simpa only [walk, scan, h] using ih
  | curDir h _ ih => simpa only [walk, scan, h] using ih
  | parentDir h _ ih => simpa only [walk, scan, h] using ih
  | badName h hn => simp [walk, scan, h, hn]
  | missing h hn hf => simp [walk, scan, h, hn, hf]
  | link h hn hf _ ih => simpa [walk, scan, h, hn, hf] using ih
  | @enter k cur n todo s r h hn hf hs _ ih =>
    cases s with
    | link target => exact absurd rfl (hs target)
    | dir => simpa [walk, scan, h, hn, hf] using ih
    | file => simpa [walk, scan, h, hn, hf] using ih
    | other => simpa [walk, scan, h, hn, hf] using ih

theorem walk_eq_iff {r : Walk N} : walk ok f k cur todo = r ↔ Resolves ok f k cur todo r :=
  ⟨fun h => h ▸ resolves_walk ok f k cur todo, Resolves.eq⟩

/-! ### Walks in sequence -/

/-- After a walk that ends at a node, the rest of a longer path is walked from there. -/
theorem walk_append_of_found (h : walk ok f k cur todo = .found d) :
    ∃ k', ∀ rest, walk ok f k cur (todo ++ rest) = walk ok f (k' + 1) d rest := by
  rw [walk_eq_iff] at h
  generalize hr : Walk.found d = r at h
  induction h with
  | spent => cases hr
  | @done k cur =>
    cases hr
    exact ⟨k, fun rest => rfl⟩
  | notDir h => cases hr
  | rootDir h _ ih =>
    obtain ⟨k', hk'⟩ := ih hr
    exact ⟨k', fun rest => by simpa only [List.cons_append, walk, scan, h] using hk' rest⟩
  | curDir h _ ih =>
    obtain ⟨k', hk'⟩ := ih hr
    exact ⟨k', fun rest => by simpa only [List.cons_append, walk, scan, h] using hk' rest⟩
  | parentDir h _ ih =>
    obtain ⟨k', hk'⟩ := ih hr
    exact ⟨k', fun rest => by simpa only [List.cons_append, walk, scan, h] using hk' rest⟩
  | badName h hn => cases hr
  | missing h hn hf => cases hr
  | link h hn hf _ ih =>
    obtain ⟨k', hk'⟩ := ih hr
    refine ⟨k', fun rest => ?_⟩
    rw [← hk' rest, List.append_assoc, List.cons_append]
    exact (Resolves.link h hn hf (resolves_walk ok f _ _ _)).eq
  | enter h hn hf hs _ ih =>
    obtain ⟨k', hk'⟩ := ih hr
    refine ⟨k', fun rest => ?_⟩
    rw [← hk' rest, List.cons_append]
    exact (Resolves.enter h hn hf hs (resolves_walk ok f _ _ _)).eq

theorem walk_append_of_missing (h : walk ok f k cur todo = .missing d n rest)
    (more : List (Component N)) :
    walk ok f k cur (todo ++ more) = .missing d n (rest ++ more) := by
  rw [walk_eq_iff] at h ⊢
  generalize hr : Walk.missing d n rest = r at h
  induction h with
  | spent => cases hr
  | done => cases hr
  | notDir h => cases hr
  | rootDir h _ ih => exact .rootDir h (ih hr)
  | curDir h _ ih => exact .curDir h (ih hr)
  | parentDir h _ ih => exact .parentDir h (ih hr)
  | badName h hn => cases hr
  | missing h hn hf =>
    cases hr
    exact .missing h hn hf
  | link h hn hf _ ih => exact .link h hn hf (List.append_assoc .. ▸ ih hr)
  | enter h hn hf hs _ ih => exact .enter h hn hf hs (ih hr)

theorem walk_append_of_failed (h : walk ok f k cur todo = .failed) (more : List (Component N)) :
    walk ok f k cur (todo ++ more) = .failed := by
  rw [walk_eq_iff] at h ⊢
  generalize hr : Walk.failed = r at h
  induction h with
  | spent => exact .spent
  | done => cases hr
  | notDir h => exact .notDir h
  | rootDir h _ ih => exact .rootDir h (ih hr)
  | curDir h _ ih => exact .curDir h (ih hr)
  | parentDir h _ ih => exact .parentDir h (ih hr)
  | badName h hn => exact .badName h hn
  | missing h hn hf => cases hr
  | link h hn hf _ ih => exact .link h hn hf (List.append_assoc .. ▸ ih hr)
  | enter h hn hf hs _ ih => exact .enter h hn hf hs (ih hr)

theorem found_of_append {more : List (Component N)}
    (h : walk ok f k cur (todo ++ more) = .found d) : ∃ d', walk ok f k cur todo = .found d' := by
  cases hw : walk ok f k cur todo with
  | found d' => exact ⟨d', rfl⟩
  | missing d' n rest => simp [walk_append_of_missing hw] at h
  | failed => simp [walk_append_of_failed hw] at h

theorem missing_spec (h : walk ok f k cur todo = .missing d n rest) :
    f d = some .dir ∧ ok n = true ∧ f (d ++ [n]) = none := by
  rw [walk_eq_iff] at h
  generalize hr : Walk.missing d n rest = r at h
  induction h with
  | spent => cases hr
  | done => cases hr
  | notDir h => cases hr
  | rootDir h _ ih => exact ih hr
  | curDir h _ ih => exact ih hr
  | parentDir h _ ih => exact ih hr
  | badName h hn => cases hr
  | missing h hn hf =>
    cases hr
    exact ⟨h, hn, hf⟩
  | link h hn hf _ ih => exact ih hr
  | enter h hn hf hs _ ih => exact ih hr

/-- A walk that ends at a node only saw what exists, so it ends there in every tree with more. -/
theorem walk_found_mono (hg : ∀ p, f p ≠ none → g p = f p) (h : walk ok f k cur todo = .found d) :
    walk ok g k cur todo = .found d := by
  rw [walk_eq_iff] at h ⊢
  have hdir : ∀ {p}, f p = some .dir → g p = some .dir := fun hp => by
    rw [hg _ (by simp [hp]), hp]
  generalize hr : Walk.found d = r at h
  induction h with
  | spent => cases hr
  | done => cases hr; exact .done
  | notDir h => cases hr
  | rootDir h _ ih => exact .rootDir (hdir h) (ih hr)
  | curDir h _ ih => exact .curDir (hdir h) (ih hr)
  | parentDir h _ ih => exact .parentDir (hdir h) (ih hr)
  | badName h hn => cases hr
  | missing h hn hf => cases hr
  | link h hn hf _ ih => exact .link (hdir h) hn (by rw [hg _ (by simp [hf]), hf]) (ih hr)
  | enter h hn hf hs _ ih =>
    exact .enter (hdir h) hn (by rw [hg _ (by simp [hf]), hf]) hs (ih hr)

/-- A walk that misses its last name ends there once the name is taken by something not a link. -/
theorem walk_missing_filled (hg : ∀ p, f p ≠ none → g p = f p) {s : Shape N}
    (hs : g (d ++ [n]) = some s) (hl : ∀ target, s ≠ .link target)
    (h : walk ok f k cur todo = .missing d n []) : walk ok g k cur todo = .found (d ++ [n]) := by
  rw [walk_eq_iff] at h ⊢
  have hdir : ∀ {p}, f p = some .dir → g p = some .dir := fun hp => by
    rw [hg _ (by simp [hp]), hp]
  generalize hr : Walk.missing d n [] = r at h
  induction h with
  | spent => cases hr
  | done => cases hr
  | notDir h => cases hr
  | rootDir h _ ih => exact .rootDir (hdir h) (ih hr)
  | curDir h _ ih => exact .curDir (hdir h) (ih hr)
  | parentDir h _ ih => exact .parentDir (hdir h) (ih hr)
  | badName h hn => cases hr
  | missing h hn hf =>
    cases hr
    exact .enter (hdir h) hn hs hl .done
  | link h hn hf _ ih => exact .link (hdir h) hn (by rw [hg _ (by simp [hf]), hf]) (ih hr)
  | enter h hn hf hs' _ ih =>
    exact .enter (hdir h) hn (by rw [hg _ (by simp [hf]), hf]) hs' (ih hr)

end FileTree
