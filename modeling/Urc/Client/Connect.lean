import Urc.Common.Config
import Urc.Common.Tailscale

/-! # Connecting to a peer

`connect --bg` resolves the peer, writes down its address, and starts itself again with the host
name of the peer as the argument. The child resolves that name anew.
-/

namespace Urc

abbrev Pid := UInt32

structure Sessions.Session where
  host : String
  ip : String
  pid : Pid
  localPort : UInt16
  url : String
  startedAtUnix : ℕ
  deriving DecidableEq

/-- The command line of a detached child: what `cmd` gets after the name of the program. -/
def childArgs (peer : TailscalePeer) (port : UInt16) : List String :=
  ["connect", peer.name, "--local-port", toString port.toNat, "--no-open", "--detached-child"]

def localUrl (port : UInt16) : String := "http://localhost:" ++ toString port.toNat ++ "/"

def descriptor (peer : TailscalePeer) (port : UInt16) (pid : Pid) (now : ℕ) : Sessions.Session :=
  ⟨peer.name, peer.ipv4, pid, port, localUrl port, now⟩

variable (lower : String → String)

/-- `connect_host` up to the preflight: the peer whose address is dialled. -/
def connectTarget (status : Json) (hostId : String) : Except String TailscalePeer :=
  match resolvePeer lower (listPeers status) hostId with
  | none => .error ("no machine named '" ++ hostId ++ "' on your tailnet.\nRun: urc hosts\n" ++
      "Machines must use the same Tailscale account and have URC installed.")
  | some peer =>
    if peer.online then .ok peer
    else .error ("'" ++ peer.name ++
      "' is offline on Tailscale. Wake the machine or check it is logged in.")

/-- `spawn_detached`, given what `sessions::find` returns for the peer, the port it picks, and the
pid and the time of the spawn: the descriptor it writes and the child it starts. -/
def spawnDetached (status : Json) (hostId : String) (find : String → Option Sessions.Session)
    (port : UInt16) (pid : Pid) (now : ℕ) : Except String (Sessions.Session × List String) :=
  match resolvePeer lower (listPeers status) hostId with
  | none => .error ("no machine named '" ++ hostId ++ "' on your tailnet.")
  | some peer =>
    if !peer.online then .error ("'" ++ peer.name ++ "' is offline on Tailscale.")
    else
      match find peer.name with
      | some existing => .error ("'" ++ peer.name ++ "' already has a running session (pid " ++
          toString existing.pid.toNat ++ ", " ++ existing.url ++ ").\nStop it with: urc kill " ++
          peer.name)
      | none => .ok (descriptor peer port pid now, childArgs peer port)

/-- The peer that a query selects is found again by its own name, and a child that is started for
it dials the address in the descriptor. -/
def ChildFindsPeer (status : Json) (q : String) : Prop :=
  (∀ p, resolvePeer lower (listPeers status) q = some p →
    ∃ p', resolvePeer lower (listPeers status) p.name = some p' ∧ SameMachine p p') ∧
  ∀ find port pid now session args, spawnDetached lower status q find port pid now =
    .ok (session, args) → ∀ p', connectTarget lower status session.host = .ok p' →
      args[1]? = some session.host ∧ p'.ipv4 = session.ip

variable {lower} {status : Json} {q : String}

theorem connectTarget_eq_ok {p : TailscalePeer} (h : connectTarget lower status q = .ok p) :
    resolvePeer lower (listPeers status) q = some p := by
  unfold connectTarget at h
  split at h
  · cases h
  · rename_i peer hpeer
    split_ifs at h
    cases h
    exact hpeer

/-- The descriptor is about the peer that the query selects. -/
theorem spawnDetached_eq_ok {find : String → Option Sessions.Session} {port : UInt16} {pid : Pid}
    {now : ℕ} {session : Sessions.Session} {args : List String}
    (h : spawnDetached lower status q find port pid now = .ok (session, args)) :
    ∃ p, resolvePeer lower (listPeers status) q = some p ∧ session.host = p.name ∧
      session.ip = p.ipv4 ∧ args = childArgs p port := by
  unfold spawnDetached at h
  split at h
  · cases h
  · rename_i peer hpeer
    split_ifs at h
    split at h
    · cases h
    · cases h
      exact ⟨peer, hpeer, rfl, rfl, rfl⟩

/-- The child finds the machine of its parent just when the peer that answers to the query first
owns its name. -/
theorem child_finds_peer_iff (lower : String → String) (status : Json) (q : String) :
    ChildFindsPeer lower status q ↔
      ∀ p, AnswersFirst lower (listPeers status) q p → OwnsName lower (listPeers status) p := by
  constructor
  · rintro ⟨hfind, -⟩ p hp
    exact resolvePeer_name_iff.mp (hfind p (resolvePeer_eq_some.mpr hp))
  · intro howns
    have hfind : ∀ p, resolvePeer lower (listPeers status) q = some p →
        ∃ p', resolvePeer lower (listPeers status) p.name = some p' ∧ SameMachine p p' :=
      fun p hp => resolvePeer_name_iff.mpr (howns p (resolvePeer_eq_some.mp hp))
    refine ⟨hfind, ?_⟩
    intro find port pid now session args hspawn p' hchild
    obtain ⟨p, hp, hhost, hip, rfl⟩ := spawnDetached_eq_ok hspawn
    obtain ⟨p'', hp'', hsame⟩ := hfind p hp
    have hp' := connectTarget_eq_ok hchild
    rw [hhost, hp''] at hp'
    cases hp'
    exact ⟨by rw [hhost]; rfl, by rw [hip, hsame.1]⟩

def crossedNames : Json :=
  .object [("Peer", .object [
    ("k1", .object [("HostName", .string "alpha"), ("DNSName", .string "x.tail.ts.net."),
      ("TailscaleIPs", .array [.string "100.64.0.1"]), ("Online", .bool true)]),
    ("k2", .object [("HostName", .string "x"), ("DNSName", .string "beta.tail.ts.net."),
      ("TailscaleIPs", .array [.string "100.64.0.2"]), ("Online", .bool true)])])]

theorem listPeers_crossedNames : listPeers crossedNames =
    [⟨"alpha", "x.tail.ts.net.", "100.64.0.1", true⟩,
      ⟨"x", "beta.tail.ts.net.", "100.64.0.2", true⟩] := by
  have hread : listPeers crossedNames =
      [(⟨"alpha", "x.tail.ts.net.", "100.64.0.1", true⟩ : TailscalePeer),
        ⟨"x", "beta.tail.ts.net.", "100.64.0.2", true⟩].mergeSort fun a b => a.name ≤ b.name := rfl
  rw [hread]
  exact List.mergeSort_of_pairwise (by decide +kernel)

/-- The parent selects `beta` and writes down its address, and the child tunnels to `alpha`. -/
theorem child_finds_other_machine : ¬ ∀ (lower : String → String) (status : Json) (q : String),
    ChildFindsPeer lower status q := by
  intro h
  obtain ⟨p', hp', hsame⟩ := (h asciiLower crossedNames "beta").1
    ⟨"x", "beta.tail.ts.net.", "100.64.0.2", true⟩ (by
      rw [listPeers_crossedNames]
      decide +kernel)
  rw [listPeers_crossedNames] at hp'
  have hfound : resolvePeer asciiLower [⟨"alpha", "x.tail.ts.net.", "100.64.0.1", true⟩,
      ⟨"x", "beta.tail.ts.net.", "100.64.0.2", true⟩] "x" =
      some ⟨"alpha", "x.tail.ts.net.", "100.64.0.1", true⟩ := by decide +kernel
  rw [hfound] at hp'
  cases hp'
  exact absurd hsame.1 (by decide)

end Urc
