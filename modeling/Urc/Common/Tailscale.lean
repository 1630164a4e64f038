import Urc.Common.Json
import Urc.Common.Text

/-! # Tailscale peers

The peers of `tailscale status --json` and the search for one of them by name. The search takes
the first peer, in the order of the host names, that answers to the query by its host name, its
DNS name, or the start of its DNS name.
-/

namespace Urc

structure TailscalePeer where
  name : String
  dnsName : String
  ipv4 : String
  online : Bool
  deriving DecidableEq

/-- `trim_end_matches('.')`. -/
def trimEndDots (s : String) : String := .ofList (s.toList.rdropWhile (· = '.'))

def shortName (dnsName : String) : String :=
  .ofList ((trimEndDots dnsName).toList.takeWhile (· ≠ '.'))

/-- The first address that is not an IPv6 address. -/
def peerIpv4 (peer : Json) : Option String :=
  ((peer.get "TailscaleIPs").bind Json.asArray).bind fun ips =>
    ips.findSome? fun ip => ip.asStr.bind fun s => if ':' ∈ s.toList then none else some s

def peerFromValue (peer : Json) : Option TailscalePeer :=
  (peerIpv4 peer).map fun ipv4 =>
    let dns := ((peer.get "DNSName").bind Json.asStr).getD ""
    let hostname := (((peer.get "HostName").bind Json.asStr).filter (· ≠ "")).getD (shortName dns)
    ⟨hostname, dns, ipv4, ((peer.get "Online").bind Json.asBool).getD false⟩

/-- All remote peers, in the order of their names. -/
def listPeers (json : Json) : List TailscalePeer :=
  match (json.get "Peer").bind Json.asObject with
  | none => []
  | some peers => (peers.filterMap fun m => peerFromValue m.2).mergeSort fun a b => a.name ≤ b.name

-- `to_lowercase`, with the tables of Unicode
variable (lower : String → String)

/-- A query as `resolve_peer` compares it. -/
def normalize (query : String) : String := lower (trimEndDots (trim query))

def answers (q : String) (p : TailscalePeer) : Bool :=
  lower p.name = q || lower p.dnsName = q || lower (shortName p.dnsName) = q ||
    (q ++ ".").toList.isPrefixOf (lower (trimEndDots p.dnsName)).toList

def resolvePeer (peers : List TailscalePeer) (query : String) : Option TailscalePeer :=
  let q := normalize lower query
  if q = "" then none else peers.find? (answers lower q)

/-- The first of the peers that answer to a query. -/
def AnswersFirst (peers : List TailscalePeer) (query : String) (p : TailscalePeer) : Prop :=
  normalize lower query ≠ "" ∧ ∃ before after, peers = before ++ p :: after ∧
    answers lower (normalize lower query) p = true ∧
    ∀ y ∈ before, answers lower (normalize lower query) y = false

/-- Two entries for one machine. -/
def SameMachine (p p' : TailscalePeer) : Prop := p'.ipv4 = p.ipv4 ∧ p'.dnsName = p.dnsName

/-- The host name of the peer leads to its machine: it is not blank, and among the peers that
answer to it, one of that machine stands before all others. -/
def OwnsName (peers : List TailscalePeer) (p : TailscalePeer) : Prop :=
  normalize lower p.name ≠ "" ∧ ∃ before x after, peers = before ++ x :: after ∧
    answers lower (normalize lower p.name) x = true ∧ SameMachine p x ∧
    ∀ y ∈ before, answers lower (normalize lower p.name) y = true → SameMachine p y

variable {lower} {peers : List TailscalePeer} {p : TailscalePeer} {q : String}

theorem resolvePeer_eq_some :
    resolvePeer lower peers q = some p ↔ AnswersFirst lower peers q p := by
  unfold resolvePeer AnswersFirst
  dsimp only
  split_ifs with hq
  · simp [hq]
  · rw [List.find?_eq_some_iff_append]
    constructor
    · rintro ⟨hp, before, after, rfl, hbefore⟩
      exact ⟨hq, before, after, rfl, hp, fun y hy => by simpa using hbefore y hy⟩
    · rintro ⟨-, before, after, rfl, hp, hbefore⟩
      exact ⟨hp, before, after, rfl, fun y hy => by simpa using hbefore y hy⟩

/-- The search for a peer's own name finds its machine just when the peer owns its name. -/
theorem resolvePeer_name_iff :
    (∃ p', resolvePeer lower peers p.name = some p' ∧ SameMachine p p') ↔
      OwnsName lower peers p := by
  constructor
  · rintro ⟨p', hp', hsame⟩
    obtain ⟨hne, before, after, rfl, hans, hbefore⟩ := resolvePeer_eq_some.mp hp'
    refine ⟨hne, before, p', after, rfl, hans, hsame, fun y hy hy' => ?_⟩
    rw [hbefore y hy] at hy'
    cases hy'
  · rintro ⟨hne, before, x, after, rfl, hans, hsame, hbefore⟩
    have hsome : ((before ++ x :: after).find? (answers lower (normalize lower p.name))).isSome :=
      List.find?_isSome.mpr ⟨x, by simp, hans⟩
    obtain ⟨p', hp'⟩ := Option.isSome_iff_exists.mp hsome
    refine ⟨p', ?_, ?_⟩
    · rw [resolvePeer, if_neg hne, hp']
    · rw [List.find?_append] at hp'
      cases hfirst : before.find? (answers lower (normalize lower p.name)) with
      | none =>
        rw [hfirst, Option.none_or, List.find?_cons_of_pos hans] at hp'
        cases hp'
        exact hsame
      | some y =>
        rw [hfirst, Option.some_or] at hp'
        cases hp'
        exact hbefore _ (List.mem_of_find?_eq_some hfirst) (List.find?_some hfirst)

end Urc
