import Mathlib.Data.List.Basic
import Mathlib.Data.List.Nodup

/-! # Maps that keep the order of their insertions

A list of entries with distinct keys. An insertion replaces the value of a key in its place, or
puts a new key at the end.
-/

namespace OrderedMap

section Upsert

variable {α : Type*}

def upsert (p : α → Bool) (x : α) : List α → List α
  | [] => [x]
  | y :: l => if p y then x :: l else y :: upsert p x l

@[simp] theorem upsert_nil (p : α → Bool) (x : α) : upsert p x [] = [x] := rfl

theorem upsert_cons (p : α → Bool) (x y : α) (l : List α) :
    upsert p x (y :: l) = if p y then x :: l else y :: upsert p x l := rfl

theorem upsert_of_findIdx? {p : α → Bool} {x : α} {l : List α} {i : ℕ}
    (h : l.findIdx? p = some i) : upsert p x l = l.set i x := by
  induction l generalizing i with
  | nil => cases h
  | cons y l ih =>
    rw [List.findIdx?_cons] at h
    rw [upsert_cons]
    cases hy : p y with
    | true =>
      rw [hy, if_pos rfl] at h
      cases h
      rfl
    | false =>
      rw [hy, if_neg Bool.false_ne_true] at h
      obtain ⟨j, hj, rfl⟩ := Option.map_eq_some_iff.mp h
      simp [ih hj]

theorem upsert_of_findIdx?_eq_none {p : α → Bool} {x : α} {l : List α}
    (h : l.findIdx? p = none) : upsert p x l = l ++ [x] := by
  induction l with
  | nil => rfl
  | cons y l ih =>
    rw [List.findIdx?_eq_none_iff] at h
    have hl : l.findIdx? p = none :=
      List.findIdx?_eq_none_iff.mpr fun z hz => h z (List.mem_cons_of_mem _ hz)
    simp [upsert_cons, h y List.mem_cons_self, ih hl]

theorem map_upsert {β : Type*} (p : α → Bool) (q : β → Bool) (f : α → β) {l : List α}
    (h : ∀ y ∈ l, q (f y) = p y) (x : α) : (upsert p x l).map f = upsert q (f x) (l.map f) := by
  induction l with
  | nil => rfl
  | cons y l ih =>
    have hy := h y List.mem_cons_self
    have hl := ih fun z hz => h z (List.mem_cons_of_mem _ hz)
    simp only [upsert_cons, List.map_cons, hy]
    split_ifs
    · rfl
    · rw [List.map_cons, hl]

theorem filter_upsert {p q : α → Bool} {x : α} (hq : ∀ y, q y = !p y) (hx : p x = true)
    (l : List α) : (upsert p x l).filter q = l.filter q := by
  induction l with
  | nil => simp [hq, hx]
  | cons y l ih =>
    rw [upsert_cons]
    split_ifs with hy
    · simp [hq, hx, hy]
    · simp [hq, hy, ih]

theorem mem_upsert {p : α → Bool} {x y : α} {l : List α} (h : y ∈ upsert p x l) :
    y = x ∨ y ∈ l := by
  induction l with
  | nil => exact .inl (List.mem_singleton.mp h)
  | cons z l ih =>
    rw [upsert_cons] at h
    split_ifs at h
    · exact (List.mem_cons.mp h).imp_right (List.mem_cons_of_mem _)
    · rcases List.mem_cons.mp h with rfl | h
      · exact .inr List.mem_cons_self
      · exact (ih h).imp_right (List.mem_cons_of_mem _)

theorem mem_upsert_self (p : α → Bool) (x : α) (l : List α) : x ∈ upsert p x l := by
  induction l with
  | nil => exact List.mem_singleton_self x
  | cons z l ih =>
    rw [upsert_cons]
    split_ifs
    · exact List.mem_cons_self
    · exact List.mem_cons_of_mem _ ih

end Upsert

end OrderedMap

structure OrderedMap (K V : Type*) where
  entries : List (K × V)
  nodup : (entries.map (·.1)).Nodup

namespace OrderedMap

variable {K V : Type*} [DecidableEq K]

instance : EmptyCollection (OrderedMap K V) := ⟨⟨[], List.nodup_nil⟩⟩

def values (m : OrderedMap K V) : List V := m.entries.map (·.2)

/-- The keys after an insertion: the same, or one more at the end. -/
theorem keys_upsert (k : K) (v : V) (l : List (K × V)) :
    (upsert (·.1 = k) (k, v) l).map (·.1) =
      if k ∈ l.map (·.1) then l.map (·.1) else l.map (·.1) ++ [k] := by
  induction l with
  | nil => rfl
  | cons e l ih =>
    by_cases he : e.1 = k
    · simp [upsert_cons, he]
    · have hk : k ≠ e.1 := fun h => he h.symm
      simp only [upsert_cons, he, decide_false, Bool.false_eq_true, if_false, List.map_cons, ih,
        List.mem_cons, hk, false_or]
      split_ifs <;> rfl

def insert (m : OrderedMap K V) (k : K) (v : V) : OrderedMap K V where
  entries := upsert (·.1 = k) (k, v) m.entries
  nodup := by
    rw [keys_upsert]
    split_ifs with h
    · exact m.nodup
    · exact List.nodup_append.mpr ⟨m.nodup, List.nodup_singleton k, fun a ha b hb => by
        rintro rfl
        exact h (List.mem_singleton.mp hb ▸ ha)⟩

def erase (m : OrderedMap K V) (k : K) : OrderedMap K V where
  entries := m.entries.filter (·.1 ≠ k)
  nodup := m.nodup.sublist (List.filter_sublist.map _)

def keys (m : OrderedMap K V) : List K := m.entries.map (·.1)

def get (m : OrderedMap K V) (k : K) : Option V := (m.entries.find? (·.1 = k)).map (·.2)

variable {m : OrderedMap K V} {k k' : K} {v : V}

@[simp] theorem get_empty : (∅ : OrderedMap K V).get k = none := rfl

theorem isSome_get : (m.get k).isSome = true ↔ k ∈ m.keys := by
  simp [get, keys]

theorem find?_upsert (l : List (K × V)) : (upsert (·.1 = k) (k, v) l).find? (·.1 = k') =
    if k = k' then some (k, v) else l.find? (·.1 = k') := by
  induction l with
  | nil =>
    rw [upsert_nil, List.find?_singleton]
    simp
  | cons e l ih =>
    rw [upsert_cons]
    by_cases hk : k = k'
    · rw [if_pos hk] at ih ⊢
      by_cases he : e.1 = k
      · simp [he, hk]
      · have he' : e.1 ≠ k' := fun h => he (h.trans hk.symm)
        simp [he, he', ih]
    · rw [if_neg hk] at ih ⊢
      by_cases he : e.1 = k
      · simp [he, hk]
      · rw [if_neg (by simpa using he), List.find?_cons, List.find?_cons, ih]

@[simp] theorem get_insert : (m.insert k v).get k' = if k = k' then some v else m.get k' := by
  rw [get, insert, find?_upsert]
  split_ifs <;> rfl

@[simp] theorem get_erase : (m.erase k).get k' = if k = k' then none else m.get k' := by
  rw [get, erase, List.find?_filter]
  by_cases hk : k = k'
  · subst hk
    simp
  · have hsame : ∀ e : K × V, (e.1 ≠ k ∧ e.1 = k') ↔ e.1 = k' :=
      fun e => and_iff_right_of_imp fun he h => hk (h.symm.trans he)
    simp [hk, hsame, get]

theorem entries_eq_nil (h : ∀ k, m.get k = none) : m.entries = [] := by
  refine List.eq_nil_iff_forall_not_mem.mpr fun e he => ?_
  have hsome : (m.get e.1).isSome = true :=
    isSome_get.mpr (List.mem_map.mpr ⟨e, he, rfl⟩)
  rw [h] at hsome
  cases hsome

end OrderedMap
