import Urc.Common.Tailscale

/-! # Peers by MagicDNS name

When `resolve_peer` finds a peer by its full DNS name and by the first label of it. The query loses
its trailing dot before the comparison and the name of the peer does not, so a full name written
with the dot matches nothing; and every peer that stands earlier in the list goes first, also when
only its host name matches. So does a host name lead to the machine that has it as a label.
-/

namespace Urc

/-- What the rest of the model relies on of `to_lowercase`: it leaves white space and dots where
they are, and makes none. -/
structure Lowercase (lower : String → String) : Prop where
  trim : ∀ s, lower (trim s) = trim (lower s)
  trimEndDots : ∀ s, lower (trimEndDots s) = trimEndDots (lower s)
  append_dot : ∀ s, lower (s ++ ".") = lower s ++ "."
  dot_mem : ∀ s, '.' ∈ (lower s).toList ↔ '.' ∈ s.toList
  eq_empty : ∀ s, lower s = "" ↔ s = ""

def Spaceless (s : String) : Prop := ∀ c ∈ s.toList, isWhitespace c = false

instance : DecidablePred Spaceless := fun s =>
  decidable_of_iff ((s.toList.all fun c => !isWhitespace c) = true) (by simp [Spaceless])

variable (lower : String → String)

/-- A query that spells the DNS name, in any letter case, with or without a trailing dot. -/
def Spells (dnsName query : String) : Prop :=
  lower query = lower (trimEndDots dnsName) ∨ lower query = lower (trimEndDots dnsName ++ ".")

/-- The peer is found by its full DNS name and by the first label of it. -/
def FoundByDns (peers : List TailscalePeer) (p : TailscalePeer) : Prop :=
  (∀ query, Spells lower p.dnsName query → resolvePeer lower peers query = some p) ∧
    resolvePeer lower peers (shortName p.dnsName) = some p

/-- The DNS names of the peers are distinct and not empty, and so are the first labels. -/
def DistinctDns (peers : List TailscalePeer) : Prop :=
  (∀ p ∈ peers, p.dnsName ≠ "") ∧ (peers.map (·.dnsName)).Nodup ∧
    (peers.map fun p => lower (shortName p.dnsName)).Nodup

/-- The queries as they are compared: the full name without and with a dot, and the first label. -/
def dnsQueries (dnsName : String) : List String :=
  [lower (trimEndDots dnsName), lower (trimEndDots dnsName ++ "."), lower (shortName dnsName)].map
    fun s => trimEndDots (trim s)

/-- The peer itself answers to its DNS name: it has a first label, and its full name is written
without the trailing dot, or is a single label, or is the host name as well. A text with white
space in it is no DNS name, and for it the comparisons decide. -/
def AnswersToDns (p : TailscalePeer) : Prop :=
  if Spaceless p.dnsName then
    shortName p.dnsName ≠ "" ∧ (p.dnsName.toList.getLast? ≠ some '.' ∨
      '.' ∉ (trimEndDots p.dnsName).toList ∨ lower p.name = lower (trimEndDots p.dnsName))
  else ∀ q ∈ dnsQueries lower p.dnsName, q ≠ "" ∧ answers lower q p = true

instance (p : TailscalePeer) : Decidable (AnswersToDns lower p) :=
  inferInstanceAs (Decidable (if Spaceless p.dnsName then
    shortName p.dnsName ≠ "" ∧ (p.dnsName.toList.getLast? ≠ some '.' ∨
      '.' ∉ (trimEndDots p.dnsName).toList ∨ lower p.name = lower (trimEndDots p.dnsName))
  else ∀ q ∈ dnsQueries lower p.dnsName, q ≠ "" ∧ answers lower q p = true))

/-- No peer that stands before this one answers to its DNS name. -/
def FirstByDns (peers : List TailscalePeer) (p : TailscalePeer) : Prop :=
  ∀ y ∈ peers.takeWhile (· ≠ p), ∀ q ∈ dnsQueries lower p.dnsName, answers lower q y = false

/-! ### Dots and white space -/

variable {lower} {s : String} {peers : List TailscalePeer} {p : TailscalePeer}

theorem Spaceless.trim_eq (h : Spaceless s) : trim s = s := by
  rw [trim, trimChars_of_forall h, String.ofList_toList]

theorem Spaceless.trimEndDots (h : Spaceless s) : Spaceless (trimEndDots s) := by
  intro c hc
  rw [Urc.trimEndDots, String.toList_ofList] at hc
  exact h c ((List.rdropWhile_prefix _ _).subset hc)

theorem Spaceless.shortName (h : Spaceless s) : Spaceless (shortName s) := by
  intro c hc
  rw [Urc.shortName, String.toList_ofList] at hc
  exact h.trimEndDots c ((List.takeWhile_prefix _).subset hc)

theorem Spaceless.append_dot (h : Spaceless s) : Spaceless (s ++ ".") := by
  intro c hc
  rw [String.toList_append, List.mem_append] at hc
  rcases hc with hc | hc
  · exact h c hc
  · obtain rfl : c = '.' := by simpa using hc
    decide

theorem trimEndDots_eq_self (h : s.toList.getLast? ≠ some '.') : trimEndDots s = s := by
  have hdrop : s.toList.rdropWhile (· = '.') = s.toList := by
    rw [List.rdropWhile_eq_self_iff]
    intro hne
    simpa [List.getLast?_eq_some_getLast hne] using h
  rw [trimEndDots, hdrop, String.ofList_toList]

theorem getLast?_trimEndDots (s : String) : (trimEndDots s).toList.getLast? ≠ some '.' := by
  rw [trimEndDots, String.toList_ofList]
  intro h
  have hne : s.toList.rdropWhile (· = '.') ≠ [] := by
    intro hnil
    rw [hnil] at h
    cases h
  have hlast := List.rdropWhile_last_not (· = '.') s.toList hne
  rw [List.getLast?_eq_some_getLast hne, Option.some_inj] at h
  simp [h] at hlast

@[simp] theorem trimEndDots_trimEndDots (s : String) :
    trimEndDots (trimEndDots s) = trimEndDots s :=
  trimEndDots_eq_self (getLast?_trimEndDots s)

theorem trimEndDots_append_dot (s : String) : trimEndDots (s ++ ".") = trimEndDots s := by
  have hdot : (s ++ ".").toList = s.toList ++ ['.'] := String.toList_append
  rw [trimEndDots, trimEndDots, hdot, List.rdropWhile_concat_pos _ _ _ (by simp)]

theorem dot_notMem_shortName (s : String) : '.' ∉ (shortName s).toList := by
  rw [shortName, String.toList_ofList]
  intro h
  simpa using List.mem_takeWhile_imp h

theorem shortName_eq (h : '.' ∉ (trimEndDots s).toList) : shortName s = trimEndDots s := by
  rw [shortName, List.takeWhile_eq_self_iff.mpr, String.ofList_toList]
  intro c hc
  have hne : c ≠ '.' := by
    rintro rfl
    exact h hc
  simpa using hne

theorem trimEndDots_ne_empty (h : shortName s ≠ "") : trimEndDots s ≠ "" := by
  intro hempty
  rw [shortName, hempty] at h
  exact h rfl

/-! ### The queries -/

theorem normalize_eq (hl : Lowercase lower) (query : String) :
    normalize lower query = trimEndDots (trim (lower query)) := by
  rw [normalize, hl.trimEndDots, hl.trim]

theorem dnsQueries_eq (hl : Lowercase lower) (h : Spaceless s) :
    dnsQueries lower s =
      [lower (trimEndDots s), lower (trimEndDots s), lower (shortName s)] := by
  have hfull : trimEndDots (trim (lower (trimEndDots s))) = lower (trimEndDots s) := by
    rw [← hl.trim, h.trimEndDots.trim_eq, ← hl.trimEndDots, trimEndDots_trimEndDots]
  have hdot : trimEndDots (trim (lower (trimEndDots s ++ "."))) = lower (trimEndDots s) := by
    rw [← hl.trim, h.trimEndDots.append_dot.trim_eq, ← hl.trimEndDots, trimEndDots_append_dot,
      trimEndDots_trimEndDots]
  have hshort : trimEndDots (trim (lower (shortName s))) = lower (shortName s) := by
    rw [← hl.trim, h.shortName.trim_eq, ← hl.trimEndDots]
    rw [trimEndDots_eq_self fun hlast => dot_notMem_shortName s (List.mem_of_getLast? hlast)]
  rw [dnsQueries, List.map_cons, List.map_cons, List.map_cons, List.map_nil, hfull, hdot, hshort]

theorem find?_eq_some_iff_takeWhile {α : Type} [DecidableEq α] {l : List α} {x : α} {f : α → Bool}
    (hx : x ∈ l) :
    l.find? f = some x ↔ f x = true ∧ ∀ y ∈ l.takeWhile (· ≠ x), f y = false := by
  induction l with
  | nil => cases hx
  | cons a l ih =>
    by_cases ha : a = x
    · subst ha
      cases hf : f a with
      | true => simp [List.find?_cons_of_pos hf]
      | false =>
        refine iff_of_false (fun h => ?_) (by simp)
        have hfound := List.find?_some h
        rw [hf] at hfound
        cases hfound
    · have hmem : x ∈ l := (List.mem_cons.mp hx).resolve_left fun h => ha h.symm
      rw [List.takeWhile_cons_of_pos (by simpa using ha), List.forall_mem_cons]
      cases hf : f a with
      | true => simp [List.find?_cons_of_pos hf, ha]
      | false =>
        rw [List.find?_cons_of_neg (by simp [hf]), ih hmem]
        simp

/-- The peer is found by its DNS name just when it answers to all three queries before the others
do. -/
theorem foundByDns_iff_answers (hl : Lowercase lower) (hp : p ∈ peers) :
    FoundByDns lower peers p ↔
      (∀ q ∈ dnsQueries lower p.dnsName, q ≠ "" ∧ answers lower q p = true) ∧
      FirstByDns lower peers p := by
  have hresolve : ∀ query, resolvePeer lower peers query = some p ↔
      (normalize lower query ≠ "" ∧ answers lower (normalize lower query) p = true) ∧
        ∀ y ∈ peers.takeWhile (· ≠ p), answers lower (normalize lower query) y = false := by
    intro query
    unfold resolvePeer
    dsimp only
    split_ifs with hq
    · simp [hq]
    · rw [find?_eq_some_iff_takeWhile hp]
      simp [hq]
  have hmem : ∀ query, Spells lower p.dnsName query ∨ query = shortName p.dnsName →
      normalize lower query ∈ dnsQueries lower p.dnsName := by
    intro query hquery
    rw [normalize_eq hl]
    rcases hquery with (h | h) | h
    · simp [dnsQueries, h]
    · simp [dnsQueries, h]
    · simp [dnsQueries, h]
  constructor
  · rintro ⟨hfull, hshort⟩
    have hall : ∀ q ∈ dnsQueries lower p.dnsName, (q ≠ "" ∧ answers lower q p = true) ∧
        ∀ y ∈ peers.takeWhile (· ≠ p), answers lower q y = false := by
      intro q hq
      simp only [dnsQueries, List.map_cons, List.map_nil, List.mem_cons, List.not_mem_nil,
        or_false] at hq
      rcases hq with rfl | rfl | rfl
      · rw [← normalize_eq hl]
        exact (hresolve _).mp (hfull _ (.inl rfl))
      · rw [← normalize_eq hl]
        exact (hresolve _).mp (hfull _ (.inr rfl))
      · rw [← normalize_eq hl]
        exact (hresolve _).mp hshort
    exact ⟨fun q hq => (hall q hq).1, fun y hy q hq => (hall q hq).2 y hy⟩
  · rintro ⟨hown, hfirst⟩
    have hfound : ∀ query, Spells lower p.dnsName query ∨ query = shortName p.dnsName →
        resolvePeer lower peers query = some p := fun query hquery =>
      (hresolve query).mpr
        ⟨hown _ (hmem query hquery), fun y hy => hfirst y hy _ (hmem query hquery)⟩
    exact ⟨fun query hquery => hfound query (.inl hquery), hfound _ (.inr rfl)⟩

/-- A full name that still has its dot is not the query, which has lost it. -/
theorem lower_eq_lower_trimEndDots (hl : Lowercase lower) (s : String) :
    lower s = lower (trimEndDots s) ↔ s.toList.getLast? ≠ some '.' := by
  constructor
  · intro h hlast
    obtain ⟨init, hinit⟩ : ∃ init : String, s = init ++ "." := by
      obtain ⟨l, hl'⟩ := List.getLast?_eq_some_iff.mp hlast
      refine ⟨.ofList l, ?_⟩
      rw [← String.toList_inj, hl']
      simp
    have hends : (lower s).toList.getLast? = some '.' := by
      rw [hinit, hl.append_dot]
      simp
    rw [h, hl.trimEndDots] at hends
    exact getLast?_trimEndDots _ hends
  · intro h
    rw [trimEndDots_eq_self h]

theorem lower_shortName_eq_iff (hl : Lowercase lower) (s : String) :
    lower (shortName s) = lower (trimEndDots s) ↔ '.' ∉ (trimEndDots s).toList := by
  constructor
  · intro h hdot
    rw [← hl.dot_mem, ← h, hl.dot_mem] at hdot
    exact dot_notMem_shortName s hdot
  · intro h
    rw [shortName_eq h]

/-- How a peer answers to its own full name: the last of the comparisons never takes it. -/
theorem answers_full_iff (hl : Lowercase lower) :
    answers lower (lower (trimEndDots p.dnsName)) p = true ↔
      p.dnsName.toList.getLast? ≠ some '.' ∨ '.' ∉ (trimEndDots p.dnsName).toList ∨
        lower p.name = lower (trimEndDots p.dnsName) := by
  have hprefix : ¬ (lower (trimEndDots p.dnsName) ++ ".").toList <+:
      (lower (trimEndDots p.dnsName)).toList := by
    intro h
    have hlen := h.length_le
    rw [String.toList_append, List.length_append] at hlen
    have hdot : ".".toList.length = 1 := rfl
    omega
  rw [← lower_eq_lower_trimEndDots hl, ← lower_shortName_eq_iff hl]
  simp only [answers, Bool.or_eq_true, decide_eq_true_eq, List.isPrefixOf_iff_prefix, hprefix,
    or_false, or_assoc]
  rw [or_comm, or_assoc]

theorem answers_label : answers lower (lower (shortName p.dnsName)) p = true := by
  simp [answers]

theorem answersToDns_iff (hl : Lowercase lower) : AnswersToDns lower p ↔
    ∀ q ∈ dnsQueries lower p.dnsName, q ≠ "" ∧ answers lower q p = true := by
  unfold AnswersToDns
  split_ifs with hs
  · rw [dnsQueries_eq hl hs, ← answers_full_iff hl]
    have hne : ∀ s, lower s ≠ "" ↔ s ≠ "" := fun s => not_congr (hl.eq_empty s)
    constructor
    · rintro ⟨hlabel, hfull⟩
      have hown : lower (trimEndDots p.dnsName) ≠ "" :=
        (hne _).mpr (trimEndDots_ne_empty hlabel)
      intro q hq
      simp only [List.mem_cons, List.not_mem_nil, or_false] at hq
      rcases hq with rfl | rfl | rfl
      · exact ⟨hown, hfull⟩
      · exact ⟨hown, hfull⟩
      · exact ⟨(hne _).mpr hlabel, answers_label⟩
    · intro h
      have hlabel := h (lower (shortName p.dnsName)) (by simp)
      have hfull := h (lower (trimEndDots p.dnsName)) (by simp)
      exact ⟨(hne _).mp hlabel.1, hfull.2⟩
  · rfl

/-- A listed peer is found by its DNS name exactly when it answers to it and is the first to do
so. -/
theorem found_by_dns_iff (hl : Lowercase lower) (status : Json) (p : TailscalePeer)
    (hp : p ∈ listPeers status) :
    FoundByDns lower (listPeers status) p ↔
      AnswersToDns lower p ∧ FirstByDns lower (listPeers status) p := by
  rw [foundByDns_iff_answers hl hp, answersToDns_iff hl]

/-! ### Host names -/

instance (p y : TailscalePeer) : Decidable (SameMachine p y) :=
  inferInstanceAs (Decidable (_ ∧ _))

/-- An entry of the peer's machine that answers to the peer's host name. -/
def Stands (lower : String → String) (p y : TailscalePeer) : Prop :=
  SameMachine p y ∧ answers lower (normalize lower p.name) y = true

instance (p y : TailscalePeer) : Decidable (Stands lower p y) :=
  inferInstanceAs (Decidable (_ ∧ _))

theorem find?_stands_iff {α : Type} {stands : α → Prop} [DecidablePred stands] {f : α → Bool}
    (hf : ∀ x, stands x → f x = true) {l : List α} (hl : ∃ x ∈ l, stands x) :
    (∃ x, l.find? f = some x ∧ stands x) ↔ ∀ y ∈ l.takeWhile (¬ stands ·), f y = false := by
  induction l with
  | nil => simp at hl
  | cons a l ih =>
    by_cases ha : stands a
    · simp [List.find?_cons_of_pos (hf a ha), ha]
    · rw [List.takeWhile_cons_of_pos (by simpa using ha), List.forall_mem_cons]
      cases hfa : f a with
      | true => simp [List.find?_cons_of_pos hfa, ha]
      | false =>
        obtain ⟨x, hx, hstands⟩ := hl
        have hmem : x ∈ l := (List.mem_cons.mp hx).resolve_left (by rintro rfl; exact ha hstands)
        rw [List.find?_cons_of_neg (by simp [hfa]), ih ⟨x, hmem, hstands⟩]
        simp

theorem answers_label_iff (hl : Lowercase lower) {q : String} (hq : '.' ∉ q.toList)
    (y : TailscalePeer) :
    answers lower q y = true ↔ lower y.name = q ∨ lower (shortName y.dnsName) = q ∨
      (q ++ ".").toList <+: (lower (trimEndDots y.dnsName)).toList := by
  have hdns : lower y.dnsName = q → lower (shortName y.dnsName) = q := by
    intro h
    have hnone : '.' ∉ y.dnsName.toList := by rwa [← hl.dot_mem, h]
    have hfull : trimEndDots y.dnsName = y.dnsName :=
      trimEndDots_eq_self fun hlast => hnone (List.mem_of_getLast? hlast)
    rw [shortName_eq (by rwa [hfull]), hfull, h]
  simp only [answers, Bool.or_eq_true, decide_eq_true_eq, List.isPrefixOf_iff_prefix, or_assoc]
  constructor
  · rintro (h | h | h)
    · exact .inl h
    · exact .inr (.inl (hdns h))
    · exact .inr h
  · rintro (h | h)
    · exact .inl h
    · exact .inr (.inr h)

theorem ownsName_iff_stands (hquery : normalize lower p.name = lower p.name) :
    OwnsName lower peers p ↔ lower p.name ≠ "" ∧
      ∃ x, peers.find? (answers lower (lower p.name)) = some x ∧ Stands lower p x := by
  rw [← resolvePeer_name_iff, resolvePeer, hquery]
  split_ifs with hempty
  · simp [hempty]
  · simp only [Stands, hquery]
    constructor
    · rintro ⟨x, hx, hsame⟩
      exact ⟨hempty, x, hx, hsame, List.find?_some hx⟩
    · rintro ⟨-, x, hx, hsame, -⟩
      exact ⟨x, hx, hsame⟩

/-- A host name of one label leads to its machine just when no entry that stands before that
machine has the same host name in some letter case, has it as the first label of its DNS name, or
begins its DNS name with it. -/
theorem ownsName_iff (hl : Lowercase lower) (hp : p ∈ peers) (hspace : Spaceless p.name)
    (hlabel : '.' ∉ p.name.toList) :
    OwnsName lower peers p ↔ p.name ≠ "" ∧ ∀ y ∈ peers.takeWhile (¬ Stands lower p ·),
      ¬ (lower y.name = lower p.name ∨ lower (shortName y.dnsName) = lower p.name ∨
        (lower p.name ++ ".").toList <+: (lower (trimEndDots y.dnsName)).toList) := by
  have hquery : normalize lower p.name = lower p.name := by
    rw [normalize, hspace.trim_eq, trimEndDots_eq_self]
    exact fun hlast => hlabel (List.mem_of_getLast? hlast)
  have hown : Stands lower p p := ⟨⟨rfl, rfl⟩, by rw [hquery]; simp [answers]⟩
  have hdot : '.' ∉ (lower p.name).toList := (hl.dot_mem _).not.mpr hlabel
  rw [ownsName_iff_stands hquery, find?_stands_iff (fun x hx => hquery ▸ hx.2) ⟨p, hp, hown⟩]
  refine and_congr (not_congr (hl.eq_empty _)) (forall₂_congr fun y _ => ?_)
  rw [← answers_label_iff hl hdot, Bool.not_eq_true]

/-! ### ASCII -/

@[simp] theorem toList_asciiLower (s : String) :
    (asciiLower s).toList = s.toList.map Char.toLower :=
  String.toList_ofList

theorem toLower_cases (c : Char) : c.toLower = c ∨
    (65 ≤ c.toNat ∧ c.toNat ≤ 90 ∧ c.toLower.toNat = c.toNat + 32) := by
  unfold Char.toLower
  split
  · rename_i h
    have hlo : 65 ≤ c.val.toNat := UInt32.le_iff_toNat_le.mp h.1
    have hhi : c.val.toNat ≤ 90 := UInt32.le_iff_toNat_le.mp h.2
    have hadd : (c.val + ('a'.val - 'A'.val)).toNat = c.val.toNat + 32 := by
      rw [UInt32.toNat_add]
      have h32 : ('a'.val - 'A'.val).toNat = 32 := rfl
      omega
    exact .inr ⟨hlo, hhi, hadd⟩
  · exact .inl rfl

theorem isWhitespace_toLower (c : Char) : isWhitespace c.toLower = isWhitespace c := by
  rcases toLower_cases c with h | ⟨hlo, hhi, h⟩
  · rw [h]
  · simp only [isWhitespace, h]
    grind

theorem toLower_eq_dot (c : Char) : c.toLower = '.' ↔ c = '.' := by
  rcases toLower_cases c with h | ⟨hlo, hhi, h⟩
  · rw [h]
  · constructor
    · rintro hc
      rw [hc] at h
      have hdot : '.'.toNat = 46 := rfl
      omega
    · rintro rfl
      rfl

theorem dropWhile_map_toLower {p : Char → Bool} (hp : ∀ c, p c.toLower = p c) (l : List Char) :
    (l.map Char.toLower).dropWhile p = (l.dropWhile p).map Char.toLower := by
  rw [List.dropWhile_map]
  congr 2
  exact funext hp

theorem rdropWhile_map_toLower {p : Char → Bool} (hp : ∀ c, p c.toLower = p c) (l : List Char) :
    (l.map Char.toLower).rdropWhile p = (l.rdropWhile p).map Char.toLower := by
  rw [List.rdropWhile, List.rdropWhile, ← List.map_reverse, dropWhile_map_toLower hp,
    List.map_reverse]

theorem asciiLowercase : Lowercase asciiLower where
  trim s := by
    rw [← String.toList_inj]
    simp only [trim, trimChars, toList_asciiLower, String.toList_ofList]
    rw [dropWhile_map_toLower isWhitespace_toLower, rdropWhile_map_toLower isWhitespace_toLower]
  trimEndDots s := by
    rw [← String.toList_inj]
    simp only [trimEndDots, toList_asciiLower, String.toList_ofList]
    rw [rdropWhile_map_toLower]
    intro c
    simp [toLower_eq_dot]
  append_dot s := by
    rw [← String.toList_inj]
    simp
  dot_mem s := by simp [toLower_eq_dot]
  eq_empty s := by
    rw [← String.toList_inj, ← String.toList_inj, toList_asciiLower]
    simp

def deskStatus (dnsName : String) : Json := .object [("Peer", .object [("key", .object [
  ("HostName", .string "Desk"), ("DNSName", .string dnsName),
  ("TailscaleIPs", .array [.string "100.64.0.7"]), ("Online", .bool true)])])]

def desk (dnsName : String) : TailscalePeer := ⟨"Desk", dnsName, "100.64.0.7", true⟩

theorem listPeers_deskStatus (dnsName : String) :
    listPeers (deskStatus dnsName) = [desk dnsName] := by
  simp [listPeers, deskStatus, peerFromValue, peerIpv4, Json.get, Json.asObject, Json.asArray,
    Json.asStr, Json.asBool, Option.filter, desk]

/-- Without the trailing dot the full name is found. -/
theorem desk_found_by_dns : FoundByDns asciiLower (listPeers (deskStatus "desk.tail.ts.net"))
    (desk "desk.tail.ts.net") := by
  have hpeers := listPeers_deskStatus "desk.tail.ts.net"
  refine (found_by_dns_iff asciiLowercase _ _ (by rw [hpeers]; exact List.mem_singleton_self _)).mpr
    ⟨by decide +kernel, ?_⟩
  rw [hpeers]
  intro y hy
  rw [List.takeWhile_cons_of_neg (by simp)] at hy
  cases hy

/-- Written with the dot, as tailscale prints it, the full name is not found. -/
theorem desk_not_found_by_dns : ¬ ∀ status p, DistinctDns asciiLower (listPeers status) →
    p ∈ listPeers status → FoundByDns asciiLower (listPeers status) p := by
  intro h
  have hpeers := listPeers_deskStatus "desk.tail.ts.net."
  have hfound := h (deskStatus "desk.tail.ts.net.") (desk "desk.tail.ts.net.")
  rw [hpeers] at hfound
  have hdistinct : DistinctDns asciiLower [desk "desk.tail.ts.net."] :=
    ⟨by simp [desk], by simp, by simp⟩
  have hnone := (hfound hdistinct (List.mem_singleton_self _)).1 "desk.tail.ts.net"
    (.inl (by decide +kernel))
  revert hnone
  decide +kernel

end Urc
