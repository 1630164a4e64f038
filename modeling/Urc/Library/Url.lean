import Mathlib.Data.List.DropRight
import Urc.Library.Decimal

/-! # URLs

The part of the generic syntax that says where a URL leads: the scheme, the host and the port of
its authority, and the path with its query. The host stands behind the last `@`, and in brackets
it may contain colons.
-/

inductive Url.Scheme
  | http
  | https
  | ws
  | wss
  deriving DecidableEq

/-- `port` is the one that the URL names, or else the one of its scheme. -/
structure Url where
  scheme : Url.Scheme
  host : List Char
  port : UInt16
  path : List Char
  deriving DecidableEq

namespace Url

def Scheme.text : Scheme → List Char
  | .http => ['h', 't', 't', 'p', ':', '/', '/']
  | .https => ['h', 't', 't', 'p', 's', ':', '/', '/']
  | .ws => ['w', 's', ':', '/', '/']
  | .wss => ['w', 's', 's', ':', '/', '/']

def Scheme.defaultPort : Scheme → UInt16
  | .http | .ws => 80
  | .https | .wss => 443

def Scheme.secure : Scheme → Bool
  | .http | .ws => false
  | .https | .wss => true

def Scheme.webSocket : Scheme → Scheme
  | .http | .ws => .ws
  | .https | .wss => .wss

theorem Scheme.defaultPort_webSocket (scheme : Scheme) :
    scheme.webSocket.defaultPort = scheme.defaultPort := by
  cases scheme <;> rfl

def endsAuthority (c : Char) : Bool := c = '/' || c = '?' || c = '#'

def splitHost : List Char → Option (List Char × List Char)
  | '[' :: s =>
    match s.dropWhile (· ≠ ']') with
    | [] => none
    | c :: rest => some ('[' :: s.takeWhile (· ≠ ']') ++ [c], rest)
  | s => some (s.takeWhile (· ≠ ':'), s.dropWhile (· ≠ ':'))

def readPort (default : UInt16) : List Char → Option UInt16
  | [] => some default
  | ':' :: ds =>
    if ds = [] then some default
    else if ds.all Char.isDigit ∧ Decimal.value ds < UInt16.size then
      some (.ofNat (Decimal.value ds))
    else none
  | _ => none

def readAuthority (default : UInt16) (s : List Char) : Option (List Char × UInt16) :=
  (splitHost (s.rtakeWhile (· ≠ '@'))).bind fun (host, rest) =>
    if host = [] then none else (readPort default rest).map fun port => (host, port)

def readAfter (scheme : Scheme) (s : List Char) : Option Url :=
  (readAuthority scheme.defaultPort (s.takeWhile fun c => !endsAuthority c)).map
    fun (host, port) =>
      ⟨scheme, host, port, (s.dropWhile fun c => !endsAuthority c).takeWhile (· ≠ '#')⟩

def read (s : List Char) : Option Url :=
  [Scheme.http, .https, .ws, .wss].findSome? fun scheme =>
    (s.dropPrefix? scheme.text).bind (readAfter scheme)

variable {s t h rest ds : List Char} {d p q : UInt16} {scheme : Scheme} {url : Url}

theorem dropPrefix?_text (scheme scheme' : Scheme) (s : List Char) :
    (scheme.text ++ s).dropPrefix? scheme'.text = if scheme = scheme' then some s else none := by
  cases scheme <;> cases scheme' <;> simp [Scheme.text, List.dropPrefix?]

theorem read_text (scheme : Scheme) (s : List Char) :
    read (scheme.text ++ s) = readAfter scheme s := by
  have hone : ∀ scheme', ((scheme.text ++ s).dropPrefix? scheme'.text).bind (readAfter scheme') =
      if scheme = scheme' then readAfter scheme s else none := by
    intro scheme'
    rw [dropPrefix?_text]
    split_ifs with h
    · rw [h, Option.bind_some]
    · rfl
  simp only [read, hone]
  cases scheme <;> cases readAfter _ s <;> rfl

/-- The authority is what stands before the first character that ends one. -/
theorem readAfter_append (scheme : Scheme) (hs : ∀ c ∈ s, endsAuthority c = false)
    (ht : ∀ c ∈ t.head?, endsAuthority c = true) : readAfter scheme (s ++ t) =
      (readAuthority scheme.defaultPort s).map
        fun (host, port) => ⟨scheme, host, port, t.takeWhile (· ≠ '#')⟩ := by
  have hall : ∀ c ∈ s, (!endsAuthority c) = true := fun c hc => by simp [hs c hc]
  have htake : t.takeWhile (fun c => !endsAuthority c) = [] := by
    cases t with
    | nil => rfl
    | cons c t => simp [ht c rfl]
  have hdrop : t.dropWhile (fun c => !endsAuthority c) = t := by
    cases t with
    | nil => rfl
    | cons c t => simp [ht c rfl]
  rw [readAfter, List.takeWhile_append_of_pos hall, List.dropWhile_append_of_pos hall, htake, hdrop,
    List.append_nil]

theorem readAfter_scheme (hr : readAfter scheme s = some url) : url.scheme = scheme := by
  obtain ⟨⟨host, port⟩, -, rfl⟩ := Option.map_eq_some_iff.mp hr
  rfl

theorem read_eq_some_iff : read s = some url ↔
    ∃ rest, s = url.scheme.text ++ rest ∧ readAfter url.scheme rest = some url := by
  constructor
  · intro hr
    obtain ⟨scheme, -, hs⟩ := List.exists_of_findSome?_eq_some hr
    obtain ⟨rest, hpre, hafter⟩ := Option.bind_eq_some_iff.mp hs
    obtain rfl := readAfter_scheme hafter
    obtain ⟨pre, hpre, heq⟩ := List.dropPrefix?_eq_some_iff.mp hpre
    exact ⟨rest, by rw [hpre, eq_of_beq heq], hafter⟩
  · rintro ⟨rest, rfl, hr⟩
    rw [read_text, hr]

/-! ### Authorities -/

structure IsHost (h : List Char) : Prop where
  ne_nil : h ≠ []
  split : splitHost h = some (h, [])

theorem splitHost_bracket (s : List Char) : splitHost ('[' :: s) =
    match s.dropWhile (· ≠ ']') with
    | [] => none
    | c :: rest => some ('[' :: s.takeWhile (· ≠ ']') ++ [c], rest) := rfl

theorem splitHost_plain (hs : s.head? ≠ some '[') :
    splitHost s = some (s.takeWhile (· ≠ ':'), s.dropWhile (· ≠ ':')) := by
  unfold splitHost
  split
  · exact absurd rfl hs
  · rfl

/-- What a bracket opens ends at the first bracket that closes. -/
theorem splitHost_bracket_eq_some_iff : splitHost ('[' :: s) = some (h, rest) ↔
    ∃ inner, ']' ∉ inner ∧ s = inner ++ ']' :: rest ∧ h = '[' :: inner ++ [']'] := by
  rw [splitHost_bracket]
  constructor
  · intro hs
    split at hs
    · cases hs
    · rename_i c tail hdrop
      simp only [Option.some.injEq, Prod.mk.injEq] at hs
      obtain ⟨rfl, rfl⟩ := hs
      have hc : c = ']' := by
        have hhead := List.head?_dropWhile_not (· ≠ ']') s
        rw [hdrop] at hhead
        simpa using hhead
      subst hc
      refine ⟨s.takeWhile (· ≠ ']'), fun hmem => ?_, ?_, rfl⟩
      · simpa using List.mem_takeWhile_imp hmem
      · rw [← hdrop, List.takeWhile_append_dropWhile]
  · rintro ⟨inner, hinner, rfl, rfl⟩
    have hall : ∀ c ∈ inner, decide (c ≠ ']') = true := fun c hc => by
      have : c ≠ ']' := fun h => hinner (h ▸ hc)
      simpa using this
    rw [List.dropWhile_append_of_pos hall, List.takeWhile_append_of_pos hall]
    simp

theorem eq_append_of_splitHost (hs : splitHost s = some (h, rest)) :
    s = h ++ rest ∧ splitHost h = some (h, []) := by
  by_cases hb : s.head? = some '['
  · obtain ⟨tail, rfl⟩ := List.head?_eq_some_iff.mp hb
    obtain ⟨inner, hinner, rfl, rfl⟩ := splitHost_bracket_eq_some_iff.mp hs
    exact ⟨by simp, splitHost_bracket_eq_some_iff.mpr ⟨inner, hinner, rfl, by simp⟩⟩
  · rw [splitHost_plain hb] at hs
    simp only [Option.some.injEq, Prod.mk.injEq] at hs
    obtain ⟨rfl, rfl⟩ := hs
    refine ⟨List.takeWhile_append_dropWhile.symm, ?_⟩
    rw [splitHost_plain]
    · simpa using fun c hc => by simpa using List.mem_takeWhile_imp hc
    · intro hhead
      cases s with
      | nil => cases hhead
      | cons c s =>
        by_cases hc : c = ':'
        · simp [hc] at hhead
        · simp [hc] at hhead
          exact hb (by simp [hhead])

theorem IsHost.splitHost_append (hh : IsHost h) (hrest : ∀ c ∈ rest.head?, c = ':') :
    splitHost (h ++ rest) = some (h, rest) := by
  have hs := hh.split
  by_cases hb : h.head? = some '['
  · obtain ⟨tail, rfl⟩ := List.head?_eq_some_iff.mp hb
    obtain ⟨inner, hinner, rfl, -⟩ := splitHost_bracket_eq_some_iff.mp hs
    exact splitHost_bracket_eq_some_iff.mpr ⟨inner, hinner, by simp, rfl⟩
  · have hhead : (h ++ rest).head? ≠ some '[' := by
      obtain ⟨c, h', rfl⟩ := List.exists_cons_of_ne_nil hh.ne_nil
      exact hb
    rw [splitHost_plain hb] at hs
    simp only [Option.some.injEq, Prod.mk.injEq] at hs
    have hall : ∀ c ∈ h, decide (c ≠ ':') = true := List.takeWhile_eq_self_iff.mp hs.1
    rw [splitHost_plain hhead, List.takeWhile_append_of_pos hall, List.dropWhile_append_of_pos hall]
    cases rest with
    | nil => simp
    | cons c rest =>
      obtain rfl := hrest c rfl
      simp

theorem readPort_cases (hp : readPort d s = some p) :
    s = [] ∨ ∃ ds, s = ':' :: ds ∧ ∀ c ∈ ds, c.isDigit = true := by
  unfold readPort at hp
  split at hp
  · exact .inl rfl
  · rename_i ds
    refine .inr ⟨ds, rfl, ?_⟩
    split_ifs at hp with hnil hds
    · simp [hnil]
    · simpa using hds.1
  · cases hp

theorem readPort_toDigits (d p : UInt16) :
    readPort d (':' :: Nat.toDigits 10 p.toNat) = some p := by
  have hnum := Decimal.isNumeral_toDigits p.toNat
  have hlt : p.toNat < UInt16.size := p.toNat_lt
  simp only [readPort]
  rw [if_neg hnum.ne_nil, Decimal.value_toDigits, if_pos ⟨List.all_eq_true.mpr hnum.digits, hlt⟩,
    UInt16.ofNat_toNat]

theorem readAuthority_isHost (h : readAuthority d s = some (t, p)) : IsHost t := by
  obtain ⟨⟨host, rest⟩, hsplit, hrest⟩ := Option.bind_eq_some_iff.mp h
  dsimp only at hrest
  split_ifs at hrest with hne
  obtain ⟨q, -, heq⟩ := Option.map_eq_some_iff.mp hrest
  obtain ⟨rfl, rfl⟩ : host = t ∧ q = p := by simpa using heq
  exact ⟨hne, (eq_append_of_splitHost hsplit).2⟩

theorem rtakeWhile_append_of_pos {p : Char → Bool} (ht : ∀ c ∈ t, p c = true) :
    (s ++ t).rtakeWhile p = s.rtakeWhile p ++ t := by
  unfold List.rtakeWhile
  rw [List.reverse_append, List.takeWhile_append_of_pos (by simpa using ht), List.reverse_append,
    List.reverse_reverse]

theorem rtakeWhile_append_cons {p : Char → Bool} {c : Char} (ht : ∀ c ∈ t, p c = true)
    (hc : p c = false) : (s ++ c :: t).rtakeWhile p = t := by
  rw [← List.singleton_append, ← List.append_assoc, rtakeWhile_append_of_pos ht]
  simp [hc]

/-- A text that ends in a colon and digits is a host with the port that they name. -/
theorem splitHost_digits (hds : ∀ c ∈ ds, c.isDigit = true) (hne : ds ≠ [])
    (hs : splitHost (s ++ ':' :: ds) = some (h, rest)) (hp : readPort d rest = some p) :
    s = h ∧ ':' :: ds = rest := by
  have hcolon : ∀ {x : List Char}, (∀ c ∈ x, c.isDigit = true) →
      ∀ c ∈ x, decide (c ≠ ':') = true := by
    intro x hx c hc
    have : c ≠ ':' := by
      rintro rfl
      exact absurd (hx _ hc) (by decide)
    simpa using this
  obtain ⟨heq, hh⟩ := eq_append_of_splitHost hs
  rcases readPort_cases hp with rfl | ⟨ds', rfl, hds'⟩
  · exfalso
    rw [List.append_nil] at heq
    by_cases hb : h.head? = some '['
    · obtain ⟨tail, rfl⟩ := List.head?_eq_some_iff.mp hb
      obtain ⟨inner, -, rfl, -⟩ := splitHost_bracket_eq_some_iff.mp hh
      obtain ⟨init, c, rfl⟩ := (List.eq_nil_or_concat ds).resolve_left hne
      have heq' : (s ++ ':' :: init) ++ [c] = ('[' :: inner) ++ [']'] := by simpa using heq
      obtain rfl : c = ']' := by simpa using (List.append_inj' heq' rfl).2
      exact absurd (hds ']' (by simp)) (by decide)
    · rw [splitHost_plain hb] at hh
      have hall := List.takeWhile_eq_self_iff.mp (congrArg Prod.fst (Option.some.inj hh))
      simpa using hall ':' (by simp [← heq])
  · have hright := congrArg (List.rtakeWhile fun c => decide (c ≠ ':')) heq
    rw [rtakeWhile_append_cons (hcolon hds) (by simp),
      rtakeWhile_append_cons (hcolon hds') (by simp)] at hright
    subst hright
    exact ⟨List.append_cancel_right heq, rfl⟩

theorem readAuthority_digits (hds : ∀ c ∈ ds, c.isDigit = true) (hne : ds ≠ []) :
    readAuthority d (s ++ ':' :: ds) = some (t, p) ↔
      s.rtakeWhile (· ≠ '@') = t ∧ IsHost t ∧ readPort d (':' :: ds) = some p := by
  have hat : (s ++ ':' :: ds).rtakeWhile (· ≠ '@') = s.rtakeWhile (· ≠ '@') ++ ':' :: ds := by
    apply rtakeWhile_append_of_pos
    intro c hc
    have : c ≠ '@' := by
      rintro rfl
      rcases List.mem_cons.mp hc with h | h
      · exact absurd h (by decide)
      · exact absurd (hds _ h) (by decide)
    simpa using this
  constructor
  · intro h
    have hhost := readAuthority_isHost h
    rw [readAuthority, hat] at h
    obtain ⟨⟨host, rest⟩, hsplit, hrest⟩ := Option.bind_eq_some_iff.mp h
    dsimp only at hrest
    split_ifs at hrest with hnil
    obtain ⟨q, hq, heq⟩ := Option.map_eq_some_iff.mp hrest
    obtain ⟨rfl, rfl⟩ : host = t ∧ q = p := by simpa using heq
    obtain ⟨hs, rfl⟩ := splitHost_digits hds hne hsplit hq
    exact ⟨hs, hhost, hq⟩
  · rintro ⟨rfl, hhost, hp⟩
    rw [readAuthority, hat, hhost.splitHost_append (by simp), Option.bind_some]
    dsimp only
    rw [if_neg hhost.ne_nil, hp, Option.map_some]

end Url
