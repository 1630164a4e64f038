import Mathlib.Data.List.Basic
import Mathlib.Data.List.Infix

/-! # File trees

A tree of directories, files, symbolic links and devices over arbitrary names. A path
here is physical: the names of the directories down to a node, with no link on the way.
`get` reads the node at a path and `set` replaces it, or makes it in an existing directory.
-/

namespace FileTree

inductive Component (N : Type*)
  | rootDir
  | curDir
  | parentDir
  | normal (n : N)
  deriving DecidableEq

/-- `other` is a device: it takes what is written to it and keeps nothing. -/
inductive Node (N B : Type*)
  | dir (entries : List (N × Node N B))
  | file (content : B)
  | link (target : List (Component N))
  | other

inductive Shape (N : Type*)
  | dir
  | file
  | link (target : List (Component N))
  | other
  deriving DecidableEq

variable {N B : Type*}

def Node.shape : Node N B → Shape N
  | .dir _ => .dir
  | .file _ => .file
  | .link target => .link target
  | .other => .other

theorem Node.shape_eq_dir {t : Node N B} (h : t.shape = .dir) : ∃ es, t = .dir es := by
  cases t with
  | dir es => exact ⟨es, rfl⟩
  | file _ => cases h
  | link _ => cases h
  | other => cases h

/-- What holds of a directory if it holds of its subdirectories holds of every directory. -/
@[elab_as_elim]
theorem Node.dir_induction {motive : List (N × Node N B) → Prop}
    (h : ∀ es, (∀ n ds, (n, Node.dir ds) ∈ es → motive ds) → motive es)
    (es : List (N × Node N B)) : motive es :=
  h es fun n ds hmem =>
    have hlt : sizeOf ds < sizeOf es := by
      have hsize := List.sizeOf_lt_of_mem hmem
      simp only [Prod.mk.sizeOf_spec, Node.dir.sizeOf_spec] at hsize
      omega
    dir_induction h ds
termination_by sizeOf es

variable [DecidableEq N]

def lookupEntry (n : N) : List (N × Node N B) → Option (Node N B)
  | [] => none
  | (m, y) :: es => if m = n then some y else lookupEntry n es

/-- The entries of a directory with one of them replaced, or added at the end. -/
def insertEntry (n : N) (x : Node N B) : List (N × Node N B) → List (N × Node N B)
  | [] => [(n, x)]
  | (m, y) :: es => if m = n then (n, x) :: es else (m, y) :: insertEntry n x es

theorem lookupEntry_insertEntry (n m : N) (x : Node N B) (es : List (N × Node N B)) :
    lookupEntry m (insertEntry n x es) = if m = n then some x else lookupEntry m es := by
  induction es with
  | nil => simp [insertEntry, lookupEntry, eq_comm]
  | cons e es ih =>
    obtain ⟨k, y⟩ := e
    by_cases hk : k = n
    · subst hk
      simp only [insertEntry, if_true, lookupEntry]
      by_cases h : k = m
      · simp [h]
      · simp [h, Ne.symm h]
    · simp only [insertEntry, if_neg hk, lookupEntry, ih]
      by_cases h : k = m
      · rw [if_pos h, if_pos h, if_neg (h ▸ hk)]
      · rw [if_neg h, if_neg h]

theorem lookupEntry_of_mem {n : N} {c : Node N B} {es : List (N × Node N B)}
    (hd : (es.map Prod.fst).Nodup) (h : (n, c) ∈ es) : lookupEntry n es = some c := by
  induction es with
  | nil => cases h
  | cons e es ih =>
    obtain ⟨hne, hd⟩ := List.nodup_cons.mp hd
    rcases List.mem_cons.mp h with rfl | h
    · simp [lookupEntry]
    · have hen : e.1 ≠ n := by
        rintro rfl
        exact hne (List.mem_map.mpr ⟨_, h, rfl⟩)
      simp [lookupEntry, hen, ih hd h]

theorem mem_of_lookupEntry {n : N} {c : Node N B} {es : List (N × Node N B)}
    (h : lookupEntry n es = some c) : (n, c) ∈ es := by
  induction es with
  | nil => cases h
  | cons e es ih =>
    obtain ⟨m, y⟩ := e
    simp only [lookupEntry] at h
    split_ifs at h with hm
    · subst hm
      obtain rfl := Option.some.inj h
      exact List.mem_cons_self
    · exact List.mem_cons_of_mem _ (ih h)

theorem insertEntry_of_lookupEntry {n : N} {c : Node N B} {es : List (N × Node N B)}
    (h : lookupEntry n es = some c) : insertEntry n c es = es := by
  induction es with
  | nil => cases h
  | cons e es ih =>
    obtain ⟨m, y⟩ := e
    simp only [lookupEntry, insertEntry] at h ⊢
    split_ifs at h ⊢ with hm
    · subst hm
      rw [Option.some.inj h]
    · rw [ih h]

namespace Node

def get : Node N B → List N → Option (Node N B)
  | t, [] => some t
  | .dir es, n :: p => (lookupEntry n es).bind (get · p)
  | _, _ :: _ => none

def set : Node N B → List N → Node N B → Node N B
  | _, [], x => x
  | .dir es, n :: p, x =>
    match lookupEntry n es with
    | some c => .dir (insertEntry n (set c p x) es)
    | none => if p = [] then .dir (insertEntry n x es) else .dir es
  | t, _ :: _, _ => t

def look (t : Node N B) (p : List N) : Option (Shape N) := (t.get p).map shape

variable {t x y : Node N B} {p q : List N} {n : N}

@[simp] theorem get_nil (t : Node N B) : t.get [] = some t := by
  cases t <;> rfl

@[simp] theorem set_nil (t x : Node N B) : t.set [] x = x := by
  cases t <;> rfl

theorem get_append (t : Node N B) (p q : List N) : t.get (p ++ q) = (t.get p).bind (·.get q) := by
  induction p generalizing t with
  | nil => simp
  | cons n p ih =>
    cases t with
    | dir es =>
      simp only [List.cons_append, get]
      cases lookupEntry n es with
      | none => rfl
      | some c => exact ih c
    | file _ => rfl
    | link _ => rfl
    | other => rfl

theorem look_of_get_append (h : t.get (p ++ q) ≠ none) (hq : q ≠ []) : t.look p = some .dir := by
  rw [get_append] at h
  obtain ⟨m, q, rfl⟩ := List.exists_cons_of_ne_nil hq
  cases hp : t.get p with
  | none => simp [hp] at h
  | some c =>
    rw [hp, Option.bind_some] at h
    cases c with
    | dir es => simp [look, hp, shape]
    | file _ => exact absurd rfl h
    | link _ => exact absurd rfl h
    | other => exact absurd rfl h

theorem dir_of_get (h : t.get p = some x) (hp : p ≠ []) : ∃ es, t = .dir es := by
  obtain ⟨n, q, rfl⟩ := List.exists_cons_of_ne_nil hp
  cases t with
  | dir es => exact ⟨es, rfl⟩
  | file _ => cases h
  | link _ => cases h
  | other => cases h

def Distinct (t : Node N B) : Prop := ∀ p es, t.get p = some (.dir es) → (es.map Prod.fst).Nodup

theorem Distinct.entry {es : List (N × Node N B)} {c : Node N B} (h : (dir es).Distinct)
    (hc : (n, c) ∈ es) : lookupEntry n es = some c ∧ c.Distinct := by
  have hl := lookupEntry_of_mem (h [] es (get_nil _)) hc
  refine ⟨hl, fun p ds hp => h (n :: p) ds ?_⟩
  rw [get, hl]
  exact hp

theorem look_eq_none : t.look p = none ↔ t.get p = none := by
  simp [look]

theorem not_prefix_of_look (hq : t.look q = none) (hp : t.look p ≠ none) : ¬ q <+: p := by
  rintro ⟨r, rfl⟩
  rw [ne_eq, look_eq_none, get_append, look_eq_none.mp hq] at hp
  exact hp rfl

/-- The place of a node that `set` can make or replace: its directory exists. -/
def Settable (t : Node N B) (p : List N) : Prop := ∀ n q, p = q ++ [n] → t.look q = some .dir

theorem settable_of_dir (h : t.look p = some .dir) : t.Settable (p ++ [n]) := by
  intro m q hq
  obtain ⟨rfl, -⟩ := List.append_inj' hq rfl
  exact h

theorem settable_of_look (h : t.look p ≠ none) : t.Settable p := by
  rintro n q rfl
  refine look_of_get_append (q := [n]) ?_ (by simp)
  rwa [ne_eq, ← look_eq_none]

theorem get_set_self (h : t.Settable p) : (t.set p x).get p = some x := by
  induction p generalizing t with
  | nil => simp
  | cons n p ih =>
    have hdir : t.look [] = some .dir := by
      rcases List.eq_nil_or_concat p with rfl | ⟨q, m, rfl⟩
      · exact h n [] rfl
      · have := h m (n :: q) (by simp)
        exact look_of_get_append (p := []) (q := n :: q) (by
          rw [List.nil_append, ne_eq, ← look_eq_none, this]; simp) (by simp)
    cases t with
    | dir es =>
      cases hl : lookupEntry n es with
      | none =>
        have hp : p = [] := by
          rcases List.eq_nil_or_concat p with hp | ⟨q, m, rfl⟩
          · exact hp
          · have := h m (n :: q) (by simp)
            simp [look, get, hl] at this
        subst hp
        simp [set, hl, get, lookupEntry_insertEntry]
      | some c =>
        have hc : c.Settable p := by
          intro m q hq
          have := h m (n :: q) (by simp [hq])
          simpa [look, get, hl] using this
        simp [set, hl, get, lookupEntry_insertEntry, ih hc]
    | file _ => simp [look, shape] at hdir
    | link _ => simp [look, shape] at hdir
    | other => simp [look, shape] at hdir

theorem set_eq_self (h : t.get p = some x) : t.set p x = t := by
  induction p generalizing t with
  | nil =>
    rw [get_nil, Option.some_inj] at h
    rw [set_nil, h]
  | cons n p ih =>
    cases t with
    | dir es =>
      obtain ⟨c, hc, hget⟩ := Option.bind_eq_some_iff.mp h
      rw [set, hc]
      dsimp only
      rw [ih hget, insertEntry_of_lookupEntry hc]
    | _ => cases h

/-- Away from the place that is set, path resolution sees the same tree. -/
theorem look_set_of_not_prefix (h : ¬ p <+: q) : (t.set p x).look q = t.look q := by
  induction p generalizing t q with
  | nil => exact absurd List.nil_prefix h
  | cons n p ih =>
    cases t with
    | dir es =>
      cases q with
      | nil =>
        cases hl : lookupEntry n es with
        | some c => simp [set, hl, look, shape]
        | none =>
          simp only [set, hl]
          split_ifs <;> rfl
      | cons m q =>
        have hne : m = n → ¬ p <+: q := by
          rintro rfl hpq
          exact h (List.cons_prefix_cons.mpr ⟨rfl, hpq⟩)
        cases hl : lookupEntry n es with
        | none =>
          simp only [set, hl]
          split_ifs with hp
          · have hmn : m ≠ n := fun hmn => hne hmn (hp ▸ List.nil_prefix)
            simp [look, get, lookupEntry_insertEntry, hmn]
          · rfl
        | some c =>
          by_cases hmn : m = n
          · subst hmn
            simpa [set, hl, look, get, lookupEntry_insertEntry] using ih (t := c) (hne rfl)
          · simp [set, hl, look, get, lookupEntry_insertEntry, hmn]
    | file _ => rfl
    | link _ => rfl
    | other => rfl

theorem look_set_append (h : t.Settable p) (r : List N) : (t.set p x).look (p ++ r) = x.look r := by
  rw [look, get_append, get_set_self h, Option.bind_some, look]

/-- A new node in a free place leaves the rest of the tree as it was. -/
theorem look_set_of_missing (hp : t.look p = none) (x : Node N B) (hq : t.look q ≠ none) :
    (t.set p x).look q = t.look q :=
  look_set_of_not_prefix (not_prefix_of_look hp hq)

theorem look_set_file {content : B} (hp : t.look p = some .file) :
    (t.set p (.file content)).look = t.look := by
  funext q
  by_cases hq : p <+: q
  · obtain ⟨r, rfl⟩ := hq
    rw [look_set_append (settable_of_look (by simp [hp]))]
    cases r with
    | nil => rw [List.append_nil, hp]; rfl
    | cons m r =>
      by_contra hne
      have hbelow : t.get (p ++ m :: r) ≠ none := fun hn => hne (look_eq_none.mpr hn).symm
      rw [look_of_get_append hbelow (by simp)] at hp
      cases hp
  · exact look_set_of_not_prefix hq

end Node

end FileTree
