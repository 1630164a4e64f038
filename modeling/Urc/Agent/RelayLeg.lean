import Urc.Common.Text
import Urc.Common.Wire
import Urc.Library.Url

/-! # Where the relay leg goes

The control connection is opened to the configured URL, the tunnel of a session to a URL that is
put together from two environment variables. The leg reaches the coordinator that asked for it
exactly when the environment repeats what the configuration says, and the connection is plain.
-/

namespace Urc

/-- What `std::env::var` gives for `URC_COORDINATOR_HOST` and `URC_COORDINATOR_PORT`. -/
structure TunnelEnv where
  coordinatorHost : Option String
  coordinatorPort : Option String

namespace TunnelEnv

def host (env : TunnelEnv) : String := env.coordinatorHost.getD "127.0.0.1"

def port (env : TunnelEnv) : UInt16 :=
  (env.coordinatorPort.bind parseU16).getD defaultCoordinatorPort

end TunnelEnv

/-- The URL that `connect_once` connects to. -/
def controlUrl (coordinatorUrl : String) : String :=
  replace (replace coordinatorUrl "https://" "wss://") "http://" "ws://"

/-- The URL that `run_tunnel_session` connects to. -/
def tunnelUrl (env : TunnelEnv) (sessionId : Uuid) : String :=
  "ws://" ++ env.host ++ ":" ++ toString env.port.toNat ++ "/tunnel/agent/" ++ sessionId.hyphenated

def legPath (sessionId : Uuid) : List Char :=
  "/tunnel/agent/".toList ++ sessionId.hyphenated.toList

theorem legPath_eq (id : Uuid) :
    legPath id = "/tunnel/agent/".toList ++ id.hyphenated.toList := rfl

/-- The leg of a session leads to where the control connection leads, but for the path. -/
def Joins (coordinatorUrl : String) (env : TunnelEnv) (sessionId : Uuid) : Prop :=
  ∃ control, Url.read (controlUrl coordinatorUrl).toList = some control ∧
    Url.read (tunnelUrl env sessionId).toList = some { control with path := legPath sessionId }

/-- The environment names what a URL names, and the URL asks for no encryption. -/
structure TunnelEnv.Repeats (env : TunnelEnv) (url : Url) : Prop where
  plain : url.scheme.secure = false
  port : env.port = url.port
  authority : ∀ c ∈ env.host.toList, Url.endsAuthority c = false
  host : env.host.toList.rtakeWhile (· ≠ '@') = url.host

/-! ### The control connection -/

/-- The text behind the scheme of a URL with the path of the control connection: no two slashes
follow each other in front of a fragment. -/
structure Behind (rest authority frag : List Char) : Prop where
  eq : rest = authority ++ ("/ws/agent".toList ++ frag)
  authority : ∀ c ∈ authority, Url.endsAuthority c = false
  frag : ∀ c ∈ frag.head?, c = '#'

theorem behind_of_read {scheme : Url.Scheme} {rest : List Char} {url : Url}
    (h : Url.readAfter scheme rest = some url) (hpath : url.path = "/ws/agent".toList) :
    ∃ authority frag, Behind rest authority frag := by
  have heq : ((rest.dropWhile fun c => !Url.endsAuthority c).takeWhile (· ≠ '#')) =
      "/ws/agent".toList := by
    obtain ⟨⟨host, port⟩, -, rfl⟩ := Option.map_eq_some_iff.mp h
    exact hpath
  refine ⟨rest.takeWhile fun c => !Url.endsAuthority c,
    (rest.dropWhile fun c => !Url.endsAuthority c).dropWhile (· ≠ '#'), ?_, fun c hc => ?_,
    fun c hc => ?_⟩
  · rw [← heq, List.takeWhile_append_dropWhile, List.takeWhile_append_dropWhile]
  · simpa using List.mem_takeWhile_imp hc
  · have hhead := List.head?_dropWhile_not (· ≠ '#') (rest.dropWhile fun c => !Url.endsAuthority c)
    rw [Option.mem_def.mp hc] at hhead
    simpa using hhead

theorem slashes_not_infix {authority : List Char} (h : '/' ∉ authority) :
    ¬ ['/', '/'] <:+: authority ++ "/ws/agent".toList := by
  rintro ⟨s, t, heq⟩
  have hpath : ¬ ['/', '/'] <:+: "/ws/agent".toList := by decide
  rw [List.append_assoc] at heq
  rcases List.append_eq_append_iff.mp heq with ⟨x, rfl, hx⟩ | ⟨x, rfl, hx⟩
  · cases x with
    | nil => exact hpath ⟨[], t, hx⟩
    | cons c x =>
      obtain rfl : '/' = c := (List.cons.inj hx).1
      exact h (by simp)
  · exact hpath ⟨x, t, by rw [hx, List.append_assoc]⟩

theorem prefix_of_prefix_append {pat s t : List Char} (h : pat <+: s ++ t)
    (ht : ∀ c ∈ t.head?, c ∉ pat) : pat <+: s := by
  rcases le_total pat.length s.length with hle | hle
  · exact List.prefix_of_prefix_length_le h (List.prefix_append s t) hle
  · obtain ⟨r, rfl⟩ := List.prefix_of_prefix_length_le (List.prefix_append s t) h hle
    have hr : r <+: t := (List.prefix_append_right_inj s).mp h
    cases r with
    | nil => simp
    | cons c r =>
      obtain ⟨t, rfl⟩ := hr
      exact absurd (by simp) (ht c rfl)

theorem replaceFrom_behind {pat rep rest authority frag : List Char}
    (h : Behind rest authority frag) (hslash : ['/', '/'] <:+: pat) (hhash : '#' ∉ pat) :
    replaceFrom pat rep 0 rest =
      authority ++ ("/ws/agent".toList ++ replaceFrom pat rep 0 frag) := by
  have hauth : '/' ∉ authority := fun hmem => by simpa [Url.endsAuthority] using h.authority _ hmem
  rw [h.eq, ← List.append_assoc, ← List.append_assoc]
  apply replaceFrom_append
  intro s' hs' _ hpre
  have hin : pat <+: s' := by
    apply prefix_of_prefix_append hpre
    intro c hc
    rwa [h.frag c hc]
  exact slashes_not_infix hauth (hslash.trans (hin.isInfix.trans hs'.isInfix))

theorem Behind.replace {pat rep rest authority frag : List Char} (h : Behind rest authority frag)
    (hslash : ['/', '/'] <:+: pat) (hhash : '#' ∉ pat) :
    Behind (replaceFrom pat rep 0 rest) authority (replaceFrom pat rep 0 frag) := by
  refine ⟨replaceFrom_behind h hslash hhash, h.authority, ?_⟩
  cases frag with
  | nil => simp [replaceFrom]
  | cons c frag =>
    obtain rfl := h.frag c rfl
    have hno : ¬ pat <+: '#' :: frag := by
      intro hpre
      cases pat with
      | nil => simpa using hslash.length_le
      | cons c pat =>
        obtain ⟨rfl, -⟩ := List.cons_prefix_cons.mp hpre
        exact hhash List.mem_cons_self
    simp [replaceFrom, hno]

theorem Behind.readAfter {rest authority frag : List Char} (h : Behind rest authority frag)
    (scheme : Url.Scheme) : Url.readAfter scheme rest =
      (Url.readAuthority scheme.defaultPort authority).map
        fun a => ⟨scheme, a.1, a.2, "/ws/agent".toList⟩ := by
  have hend : ∀ c ∈ ("/ws/agent".toList ++ frag).head?, Url.endsAuthority c = true := by
    rintro c hc
    obtain rfl : '/' = c := by simpa using hc
    rfl
  have hpath : ("/ws/agent".toList ++ frag).takeWhile (· ≠ '#') = "/ws/agent".toList := by
    have hplain : ("/ws/agent".toList.all fun c => decide (c ≠ '#')) = true := by decide
    rw [List.takeWhile_append_of_pos (List.all_eq_true.mp hplain)]
    cases frag with
    | nil => rfl
    | cons c frag => simp [h.frag c rfl]
  rw [h.eq, Url.readAfter_append scheme h.authority hend, hpath]

/-- A URL reads the same with another text in front of the same authority and path. -/
theorem Behind.read {rest rest' authority frag frag' : List Char} (h : Behind rest authority frag)
    (h' : Behind rest' authority frag') {scheme scheme' : Url.Scheme}
    (hport : scheme'.defaultPort = scheme.defaultPort) {url : Url}
    (hr : Url.readAfter scheme rest = some url) :
    Url.readAfter scheme' rest' = some { url with scheme := scheme' } := by
  rw [h.readAfter] at hr
  rw [h'.readAfter, hport]
  obtain ⟨⟨host, port⟩, ha, rfl⟩ := Option.map_eq_some_iff.mp hr
  rw [ha, Option.map_some]

/-- The two replacements give every scheme the one of a WebSocket. -/
theorem controlUrl_text {u : String} {scheme : Url.Scheme} {rest : List Char}
    (hu : u.toList = scheme.text ++ rest) : (controlUrl u).toList = scheme.webSocket.text ++
      replaceFrom Url.Scheme.http.text Url.Scheme.ws.text 0
        (replaceFrom Url.Scheme.https.text Url.Scheme.wss.text 0 rest) := by
  have hcontrol : (controlUrl u).toList = replaceFrom Url.Scheme.http.text Url.Scheme.ws.text 0
      (replaceFrom Url.Scheme.https.text Url.Scheme.wss.text 0 (scheme.text ++ rest)) := by
    simp only [controlUrl, replace, String.toList_ofList, hu]
    rfl
  rw [hcontrol]
  cases scheme with
  | http =>
    have hkeep : ∀ r, replaceFrom Url.Scheme.https.text Url.Scheme.wss.text 0
        (Url.Scheme.http.text ++ r) = Url.Scheme.http.text ++
          replaceFrom Url.Scheme.https.text Url.Scheme.wss.text 0 r := by
      simp [Url.Scheme.text, replaceFrom]
    rw [hkeep]
    exact replaceFrom_match
  | https =>
    have hmatch : ∀ r, replaceFrom Url.Scheme.https.text Url.Scheme.wss.text 0
        (Url.Scheme.https.text ++ r) = Url.Scheme.wss.text ++
          replaceFrom Url.Scheme.https.text Url.Scheme.wss.text 0 r := fun r => replaceFrom_match
    rw [hmatch]
    simp [Url.Scheme.text, Url.Scheme.webSocket, replaceFrom]
  | ws => simp [Url.Scheme.text, Url.Scheme.webSocket, replaceFrom]
  | wss => simp [Url.Scheme.text, Url.Scheme.webSocket, replaceFrom]

theorem control_read {u : String} {url : Url} (hu : Url.read u.toList = some url)
    (hpath : url.path = "/ws/agent".toList) : Url.read (controlUrl u).toList =
      some { url with scheme := url.scheme.webSocket } := by
  obtain ⟨rest, heq, hr⟩ := Url.read_eq_some_iff.mp hu
  obtain ⟨authority, frag, hb⟩ := behind_of_read hr hpath
  have hslash : ['/', '/'] <:+: Url.Scheme.http.text ∧ ['/', '/'] <:+: Url.Scheme.https.text := by
    decide
  have hhash : '#' ∉ Url.Scheme.http.text ∧ '#' ∉ Url.Scheme.https.text := by decide
  rw [controlUrl_text heq, Url.read_text]
  exact hb.read ((hb.replace hslash.2 hhash.2).replace hslash.1 hhash.1)
    url.scheme.defaultPort_webSocket hr

/-! ### The leg -/

theorem not_mem_hyphenated {c : Char} (hc : Radix.hexValue c = none) (hh : c ≠ '-') (u : Uuid) :
    c ∉ u.hyphenated.toList := by
  intro hmem
  rw [Uuid.hyphenated, String.toList_ofList] at hmem
  have hin : c ∈ (Radix.digits 16 32 u.bits.toNat).map Nat.digitChar := by
    rw [← Uuid.flatten_groups ((Radix.digits 16 32 u.bits.toNat).map Nat.digitChar)]
    simpa [Uuid.groups, List.intercalate, List.intersperse, hh] using hmem
  obtain ⟨d, hd, rfl⟩ := List.mem_map.mp hin
  rw [Radix.hexValue_digitChar (Radix.lt_of_mem_digits (by omega) hd)] at hc
  cases hc

/-- The leg of a session, as a scheme and what stands behind it. -/
theorem tunnelUrl_toList (env : TunnelEnv) (id : Uuid) : (tunnelUrl env id).toList =
    Url.Scheme.ws.text ++
      (env.host.toList ++ ':' :: (Nat.toDigits 10 env.port.toNat ++ legPath id)) := by
  have hws : "ws://".toList = Url.Scheme.ws.text := by decide
  have hcolon : ":".toList = [':'] := by decide
  have hport : ∀ n : ℕ, (toString n).toList = Nat.toDigits 10 n := fun n => String.toList_ofList
  have hassoc : ∀ a b c d e : List Char, a ++ b ++ [':'] ++ c ++ d ++ e =
      a ++ (b ++ ':' :: (c ++ (d ++ e))) := by simp
  rw [tunnelUrl, String.toList_append, String.toList_append, String.toList_append,
    String.toList_append, String.toList_append, hws, hcolon, hport]
  exact hassoc _ _ _ _ _

theorem take_legPath (id : Uuid) : (legPath id).takeWhile (· ≠ '#') = legPath id := by
  rw [List.takeWhile_eq_self_iff]
  intro c hc
  have hne : c ≠ '#' := by
    rintro rfl
    rcases List.mem_append.mp hc with h | h
    · exact absurd h (by decide)
    · exact not_mem_hyphenated (by decide) (by decide) id h
  simpa using hne

theorem tunnel_read {env : TunnelEnv} (h : ∀ c ∈ env.host.toList, Url.endsAuthority c = false)
    (id : Uuid) : Url.read (tunnelUrl env id).toList =
      (Url.readAuthority 80 (env.host.toList ++ ':' :: Nat.toDigits 10 env.port.toNat)).map
        fun (host, port) => ⟨.ws, host, port, legPath id⟩ := by
  have hdigits := (Decimal.isNumeral_toDigits env.port.toNat).digits
  have hauth : ∀ c ∈ env.host.toList ++ ':' :: Nat.toDigits 10 env.port.toNat,
      Url.endsAuthority c = false := by
    intro c hc
    rcases List.mem_append.mp hc with hc | hc
    · exact h c hc
    · rcases List.mem_cons.mp hc with rfl | hc
      · rfl
      · have hd := hdigits c hc
        simp only [Url.endsAuthority, Bool.or_eq_false_iff, decide_eq_false_iff_not]
        refine ⟨⟨?_, ?_⟩, ?_⟩ <;>
          · rintro rfl
            exact absurd hd (by decide)
  have hend : ∀ c ∈ (legPath id).head?, Url.endsAuthority c = true := by
    intro c hc
    have hne : "/tunnel/agent/".toList ≠ [] := by simp
    have hslash : "/tunnel/agent/".toList.head? = some '/' := by decide +kernel
    rw [legPath_eq, Decimal.head?_append_of_ne_nil hne, hslash] at hc
    obtain rfl : '/' = c := Option.some.inj hc
    rfl
  have hread := Url.readAfter_append .ws hauth hend
  rw [take_legPath, List.append_assoc, List.cons_append] at hread
  rw [tunnelUrl_toList, Url.read_text]
  exact hread

theorem legPath_injective : Function.Injective legPath := by
  intro id id' h
  have htext : id.hyphenated = id'.hyphenated :=
    String.toList_inj.mp (List.append_cancel_left h)
  have hread := congrArg Uuid.parseStr htext
  rw [Uuid.parseStr_hyphenated, Uuid.parseStr_hyphenated] at hread
  exact Option.some.inj hread

theorem takeWhile_append_of_mem {front x : List Char} {c : Char} (hc : c ∈ front) :
    (front ++ x).takeWhile (· ≠ c) = front.takeWhile (· ≠ c) := by
  rw [List.takeWhile_append, if_neg]
  intro hlen
  have hall := List.takeWhile_eq_self_iff.mp ((List.takeWhile_prefix _).eq_of_length hlen)
  simpa using hall c hc

/-- What stands before the session in every path is the front of the paths of the legs. -/
theorem front_eq_of_paths {front : List Char}
    (h : ∀ id : Uuid, (front ++ id.hyphenated.toList).takeWhile (· ≠ '#') = legPath id) :
    front = "/tunnel/agent/".toList := by
  by_cases hhash : '#' ∈ front
  · have hsame : legPath ⟨0⟩ = legPath ⟨1⟩ := by
      rw [← h, ← h, takeWhile_append_of_mem hhash, takeWhile_append_of_mem hhash]
    exact absurd (legPath_injective hsame) (by decide)
  · have hno : ∀ c ∈ front ++ (⟨0⟩ : Uuid).hyphenated.toList, decide (c ≠ '#') = true := by
      intro c hc
      have hne : c ≠ '#' := by
        rintro rfl
        rcases List.mem_append.mp hc with hmem | hmem
        · exact hhash hmem
        · exact not_mem_hyphenated (by decide) (by decide) _ hmem
      simpa using hne
    have hfull := h ⟨0⟩
    rw [List.takeWhile_eq_self_iff.mpr hno, legPath_eq] at hfull
    exact List.append_cancel_right hfull

/-- A host that ends the authority puts a text of its own in front of every path. -/
theorem authority_of_paths {env : TunnelEnv} (hpath : ∀ id, ∃ leg,
    Url.read (tunnelUrl env id).toList = some leg ∧ leg.path = legPath id) :
    ∀ c ∈ env.host.toList, Url.endsAuthority c = false := by
  by_contra hends
  have hsome : (env.host.toList.find? Url.endsAuthority).isSome := by
    simpa [List.find?_isSome] using hends
  obtain ⟨d, hfind⟩ := Option.isSome_iff_exists.mp hsome
  obtain ⟨hd, s, t, hhost, hs⟩ := List.find?_eq_some_iff_append.mp hfind
  -- what stands before the id in the path
  obtain ⟨front, hfront⟩ : ∃ front, front = d :: (t ++ ':' :: (Nat.toDigits 10 env.port.toNat ++
      "/tunnel/agent/".toList)) := ⟨_, rfl⟩
  have hread : ∀ id, (front ++ id.hyphenated.toList).takeWhile (· ≠ '#') = legPath id := by
    intro id
    obtain ⟨leg, hleg, hpath⟩ := hpath id
    have hsplit : (tunnelUrl env id).toList =
        Url.Scheme.ws.text ++ (s ++ (front ++ id.hyphenated.toList)) := by
      rw [tunnelUrl_toList, hhost, hfront, legPath_eq]
      simp only [List.append_assoc, List.cons_append]
    rw [hsplit, Url.read_text, Url.readAfter_append .ws (by simpa using hs)
      (by simpa [hfront] using hd)] at hleg
    obtain ⟨⟨host, port⟩, -, rfl⟩ := Option.map_eq_some_iff.mp hleg
    exact hpath
  have hlen := congrArg List.length (hfront.symm.trans (front_eq_of_paths hread))
  simp only [List.length_cons, List.length_append] at hlen
  omega

/-- The relay leg of every session joins the coordinator that asked for it exactly when the
environment names the host and the port of the configured URL, which is not an encrypted one. -/
theorem relay_leg_iff {u : String} {url : Url} (env : TunnelEnv)
    (hu : Url.read u.toList = some url) (hpath : url.path = "/ws/agent".toList) :
    (∀ id, Joins u env id) ↔ env.Repeats url := by
  have hcontrol := control_read hu hpath
  obtain ⟨rest, -, hafter⟩ := Url.read_eq_some_iff.mp hu
  have hhost : Url.IsHost url.host := by
    obtain ⟨⟨host, port⟩, hread, heq⟩ := Option.map_eq_some_iff.mp hafter
    rw [← heq]
    exact Url.readAuthority_isHost hread
  have hdigits := Decimal.isNumeral_toDigits env.port.toNat
  constructor
  · intro h
    have hauth := authority_of_paths fun id => by
      obtain ⟨control, -, hleg⟩ := h id
      exact ⟨_, hleg, rfl⟩
    obtain ⟨control, hc, hleg⟩ := h ⟨0⟩
    rw [hcontrol, Option.some.injEq] at hc
    subst hc
    rw [tunnel_read hauth] at hleg
    obtain ⟨⟨host, port⟩, hread, heq⟩ := Option.map_eq_some_iff.mp hleg
    simp only [Url.mk.injEq] at heq
    obtain ⟨hscheme, rfl, rfl, -⟩ := heq
    obtain ⟨hat, -, hport⟩ := (Url.readAuthority_digits hdigits.digits hdigits.ne_nil).mp hread
    rw [Url.readPort_toDigits, Option.some.injEq] at hport
    refine ⟨?_, hport, hauth, hat⟩
    cases hs : url.scheme <;> simp [hs, Url.Scheme.webSocket, Url.Scheme.secure] at hscheme ⊢
  · intro h id
    refine ⟨_, hcontrol, ?_⟩
    have hread : Url.readAuthority 80 (env.host.toList ++ ':' :: Nat.toDigits 10 env.port.toNat) =
        some (url.host, url.port) := by
      refine (Url.readAuthority_digits hdigits.digits hdigits.ne_nil).mpr ⟨h.host, hhost, ?_⟩
      rw [Url.readPort_toDigits, h.port]
    have hws : url.scheme.webSocket = .ws := by
      have hplain := h.plain
      cases hs : url.scheme <;> simp [hs, Url.Scheme.webSocket, Url.Scheme.secure] at hplain ⊢
    rw [tunnel_read h.authority, hread, Option.map_some, hws]

/-- The encrypted coordinator that the documentation sets up gets no leg. -/
theorem no_secure_leg : ¬ ∀ (u : String) (url : Url) (env : TunnelEnv),
    Url.read u.toList = some url → url.path = "/ws/agent".toList → ∀ id, Joins u env id := by
  intro h
  have hu : Url.read "wss://relay.example:21150/ws/agent".toList =
      some ⟨.wss, "relay.example".toList, 21150, "/ws/agent".toList⟩ := by decide +kernel
  obtain ⟨control, hcontrol, hleg⟩ := h _ _ ⟨none, none⟩ hu rfl ⟨0⟩
  obtain rfl := Option.some.inj (hcontrol.symm.trans (control_read hu rfl))
  revert hleg
  decide +kernel

/-- The unit's own environment serves a coordinator on the same machine. -/
theorem local_relay_leg : Joins "http://127.0.0.1:21150/ws/agent"
    ⟨some "127.0.0.1", some "21150"⟩ ⟨0⟩ := by
  have hu : Url.read "http://127.0.0.1:21150/ws/agent".toList =
      some ⟨.http, "127.0.0.1".toList, 21150, "/ws/agent".toList⟩ := by decide +kernel
  have hplain : ("127.0.0.1".toList.all fun c => !Url.endsAuthority c) = true := by decide +kernel
  refine (relay_leg_iff _ hu rfl).mpr
    ⟨rfl, by decide +kernel, fun c hc => ?_, by decide +kernel⟩ ⟨0⟩
  simpa using List.all_eq_true.mp hplain c hc

end Urc
