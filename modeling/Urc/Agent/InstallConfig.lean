import Urc.Common.Config
import Urc.Common.Text
import Urc.Library.Toml

/-! # The configuration that the installer writes

`setup_agent_config` has the agent print its defaults, and rewrites the lines of three keys and of
the tailscale table. The defaults have no host id and no token, so there are no lines of these two
keys: the URL and the tailscale switch get through, the host id and the token do not.
-/

namespace Urc

open Toml

/-! ### `AgentConfig` in a file -/

def EncryptionMode.name : EncryptionMode → String
  | .tls => "tls"
  | .none => "none"

def BackendPreference.name : BackendPreference → String
  | .auto => "auto"
  | .x11 => "x11"
  | .gnome => "gnome"
  | .wayvnc => "wayvnc"

def EncryptionMode.all : List EncryptionMode := [.tls, .none]

def BackendPreference.all : List BackendPreference := [.auto, .x11, .gnome, .wayvnc]

namespace AgentConfig

/-- `Serialize`: what is `None` is omitted. -/
def toDocument (c : AgentConfig) : Document where
  root := c.hostId.toList.map (("host_id", .string ·)) ++
    c.token.toList.map (("token", .string ·)) ++
    [("coordinator_url", .string c.coordinatorUrl),
      ("listen_tls_port", .integer c.listenTlsPort.toNat),
      ("listen_web_tls_port", .integer c.listenWebTlsPort.toNat)] ++
    c.vncPasswordFile.toList.map (("vnc_password_file", .string ·)) ++
    [("encryption", .string c.encryption.name), ("insecure", .boolean c.insecure)] ++
    c.filesRoot.toList.map (("files_root", .string ·)) ++
    [("backend", .string c.backend.name),
      ("x11_server_key_repeat", .boolean c.x11ServerKeyRepeat)]
  tables := [("tailscale", [("enabled", .boolean c.tailscaleEnabled),
    ("prefer_direct", .boolean c.tailscalePreferDirect)])]

def asString : Value → Option String
  | .string s => some s
  | _ => none

def asPort : Value → Option UInt16
  | .integer n => if n < 65536 then some (.ofNat n) else none
  | _ => none

def asBool : Value → Option Bool
  | .boolean b => some b
  | _ => none

def asEncryption (v : Value) : Option EncryptionMode :=
  (asString v).bind fun s => EncryptionMode.all.find? (·.name = s)

def asBackend (v : Value) : Option BackendPreference :=
  (asString v).bind fun s => BackendPreference.all.find? (·.name = s)

section

variable {α : Type} (entries : List Toml.Entry) (key : String) (as : Value → Option α)

def get : Option Value := (entries.find? (·.1 = key)).map (·.2)

def required : Option α := (get entries key).bind as

/-- An `Option`, which is `None` where the key is missing. -/
def optional : Option (Option α) :=
  match get entries key with
  | some v => (as v).map some
  | none => some none

/-- A field with `serde(default)`. -/
def defaulted (fallback : α) : Option α :=
  match get entries key with
  | some v => as v
  | none => some fallback

end

/-- `Deserialize`, which ignores other keys. -/
def ofDocument (d : Document) : Option AgentConfig := do
  let hostId ← optional d.root "host_id" asString
  let token ← optional d.root "token" asString
  let coordinatorUrl ← required d.root "coordinator_url" asString
  let listenTlsPort ← required d.root "listen_tls_port" asPort
  let listenWebTlsPort ← defaulted d.root "listen_web_tls_port" asPort defaultWebTlsPort
  let vncPasswordFile ← optional d.root "vnc_password_file" asString
  let encryption ← required d.root "encryption" asEncryption
  let insecure ← required d.root "insecure" asBool
  let (_, tailscale) ← d.tables.find? (·.1 = "tailscale")
  let tailscaleEnabled ← required tailscale "enabled" asBool
  let tailscalePreferDirect ← required tailscale "prefer_direct" asBool
  let filesRoot ← optional d.root "files_root" asString
  let backend ← required d.root "backend" asBackend
  let x11ServerKeyRepeat ← defaulted d.root "x11_server_key_repeat" asBool false
  some { hostId, token, coordinatorUrl, listenTlsPort, listenWebTlsPort, vncPasswordFile,
         encryption, insecure, tailscaleEnabled, tailscalePreferDirect, filesRoot, backend,
         x11ServerKeyRepeat }

theorem asPort_toNat (p : UInt16) : asPort (.integer p.toNat) = some p := by
  rw [asPort, if_pos p.toNat_lt, UInt16.ofNat_toNat]

theorem asEncryption_name (e : EncryptionMode) : asEncryption (.string e.name) = some e := by
  cases e <;> decide

theorem asBackend_name (b : BackendPreference) : asBackend (.string b.name) = some b := by
  cases b <;> decide

@[simp] theorem get_nil (key : String) : get [] key = none := rfl

@[simp] theorem get_append (entries entries' : List Toml.Entry) (key : String) :
    get (entries ++ entries') key = (get entries key).or (get entries' key) := by
  rw [get, List.find?_append, get, get]
  cases entries.find? (·.1 = key) <;> rfl

@[simp] theorem get_cons (e : Toml.Entry) (entries : List Toml.Entry) (key : String) :
    get (e :: entries) key = if e.1 = key then some e.2 else get entries key := by
  rw [get, List.find?_cons]
  by_cases h : e.1 = key <;> simp [h, get]

@[simp] theorem get_texts (o : Option String) (key key' : String) :
    get (o.toList.map (key, .string ·)) key' =
      if key = key' then o.map .string else none := by
  by_cases h : key = key' <;> cases o <;> simp [get, h]

theorem optional_of_get {entries : List Toml.Entry} {key : String} {o : Option String}
    (h : get entries key = o.map .string) : optional entries key asString = some o := by
  rw [optional, h]
  cases o <;> rfl

theorem ofDocument_toDocument (c : AgentConfig) : ofDocument c.toDocument = some c := by
  have hhost : optional c.toDocument.root "host_id" asString = some c.hostId :=
    optional_of_get (by simp [toDocument])
  have htoken : optional c.toDocument.root "token" asString = some c.token :=
    optional_of_get (by simp [toDocument])
  have hpassword : optional c.toDocument.root "vnc_password_file" asString =
      some c.vncPasswordFile := optional_of_get (by simp [toDocument])
  have hfiles : optional c.toDocument.root "files_root" asString = some c.filesRoot :=
    optional_of_get (by simp [toDocument])
  have htable : c.toDocument.tables.find? (·.1 = "tailscale") = some ("tailscale",
    [("enabled", .boolean c.tailscaleEnabled),
      ("prefer_direct", .boolean c.tailscalePreferDirect)]) := by
    simp [toDocument]
  rw [ofDocument, hhost, htoken, hpassword, hfiles, htable]
  simp [toDocument, required, defaulted, asPort_toNat, asEncryption_name, asBackend_name,
    asString, asBool]

/-- The texts of a configuration have no characters that a file would escape. -/
structure PlainTexts (c : AgentConfig) : Prop where
  hostId : ∀ s ∈ c.hostId, ∀ x ∈ s.toList, IsPlain x
  token : ∀ s ∈ c.token, ∀ x ∈ s.toList, IsPlain x
  coordinatorUrl : ∀ x ∈ c.coordinatorUrl.toList, IsPlain x
  vncPasswordFile : ∀ s ∈ c.vncPasswordFile, ∀ x ∈ s.toList, IsPlain x
  filesRoot : ∀ s ∈ c.filesRoot, ∀ x ∈ s.toList, IsPlain x

theorem nodup_names (c : AgentConfig) :
    (c.toDocument.root.map (·.1) ++ c.toDocument.tables.map (·.1)).Nodup := by
  have hopt : ∀ (key : String) (o : Option String),
      ((o.toList.map (key, Value.string ·)).map (·.1)).Sublist [key] := by
    intro key o
    cases o <;> simp
  have hall : ["host_id", "token", "coordinator_url", "listen_tls_port", "listen_web_tls_port",
      "vnc_password_file", "encryption", "insecure", "files_root", "backend",
      "x11_server_key_repeat", "tailscale"].Nodup := by decide
  refine hall.sublist ?_
  simp only [toDocument, List.map_append]
  exact (((((((hopt _ _).append (hopt _ _)).append (.refl _)).append (hopt _ _)).append
    (.refl _)).append (hopt _ _)).append (.refl _)).append (.refl _)

theorem isBare_keys : ∀ key ∈ ["host_id", "token", "coordinator_url", "listen_tls_port",
    "listen_web_tls_port", "vnc_password_file", "encryption", "insecure", "files_root", "backend",
    "x11_server_key_repeat", "tailscale", "enabled", "prefer_direct"], IsBare key := by
  decide +kernel

theorem isPlain_toDocument {c : AgentConfig} (hc : c.PlainTexts) : c.toDocument.IsPlain := by
  have hencryption : (Value.string c.encryption.name).IsPlain := by
    cases c.encryption <;> exact Value.isPlain_string (by decide)
  have hbackend : (Value.string c.backend.name).IsPlain := by
    cases c.backend <;> exact Value.isPlain_string (by decide)
  have hkeys := isBare_keys
  simp only [List.forall_mem_cons] at hkeys
  obtain ⟨hhost, htoken, hurl, hport, hweb, hpassword, henc, hinsecure, hfiles, hback, hrepeat,
    htailscale, henabled, hdirect, -⟩ := hkeys
  have hlist : ∀ {key : String} {o : Option String}, IsBare key →
      (∀ s ∈ o, ∀ x ∈ s.toList, IsPlain x) →
      ∀ e ∈ o.toList.map (fun s => (key, Value.string s)), IsBare e.1 ∧ e.2.IsPlain := by
    intro key o hkey ho e he
    obtain ⟨s, hs, rfl⟩ := List.mem_map.mp he
    exact ⟨hkey, ho s (Option.mem_toList.mp hs)⟩
  refine ⟨by simp [toDocument], nodup_names c, by simp [toDocument], ?_, ?_⟩
  · simp only [toDocument, List.forall_mem_append, List.forall_mem_cons]
    refine ⟨⟨⟨⟨⟨⟨hlist hhost hc.hostId, hlist htoken hc.token⟩, ⟨hurl, hc.coordinatorUrl⟩,
      ⟨hport, trivial⟩, ⟨hweb, trivial⟩, by simp⟩, hlist hpassword hc.vncPasswordFile⟩,
      ⟨henc, hencryption⟩, ⟨hinsecure, trivial⟩, by simp⟩, hlist hfiles hc.filesRoot⟩,
      ⟨hback, hbackend⟩, ⟨hrepeat, trivial⟩, by simp⟩
  · simp only [toDocument, List.forall_mem_cons]
    exact ⟨⟨htailscale, ⟨henabled, trivial⟩, ⟨hdirect, trivial⟩, by simp⟩, by simp⟩

end AgentConfig

/-! ### `load_config` -/

/-- `hostname_id`, from the text of `/etc/hostname`, if it can be read. -/
def hostnameId (hostname : Option String) : String := trim (hostname.getD "urc-host")

def loadConfig (toml : Codec) (file : Option (List String)) (hostname : Option String) :
    Option AgentConfig :=
  match file with
  | some text => do
    let config ← (toml.parse text).bind AgentConfig.ofDocument
    some { config with hostId := config.hostId.or (some (hostnameId hostname)) }
  | none => some { AgentConfig.default with hostId := some (hostnameId hostname) }

/-! ### The installer -/

/-- A text without characters that mean something in a substitution with this delimiter, or
between quotation marks. -/
structure PlainValue (delimiter : Char) where
  text : String
  plain : ∀ c ∈ text.toList, c ≠ delimiter ∧ c ≠ '&' ∧ IsPlain c

theorem plain_of_all {delimiter : Char} {s : String}
    (h : s.toList.all (fun c => decide (c ≠ delimiter ∧ c ≠ '&' ∧ IsPlain c)) = true) :
    ∀ c ∈ s.toList, c ≠ delimiter ∧ c ≠ '&' ∧ IsPlain c := fun c hc =>
  of_decide_eq_true (List.all_eq_true.mp h c hc)

/-- The variables of `install.sh`, where `hostname` is what `hostname -s` prints. -/
structure Installer where
  hostId : PlainValue '/'
  hostname : PlainValue '/'
  token : PlainValue '/'
  coordinatorUrl : PlainValue '|'
  withoutTailscale : Bool
  withTailscale : Bool
  role : String

namespace Installer

def wantTailscale (i : Installer) : Bool :=
  if i.withoutTailscale then false
  else if i.withTailscale then true
  else i.role = "agent" || i.role = "client"

/-- `${HOST_ID:-$(hostname -s)}`. -/
def hid (i : Installer) : String := if i.hostId.text = "" then i.hostname.text else i.hostId.text

/-- `urc-agent --init-config`, with the end of line of `println!`. -/
def initConfig (toml : Codec) : List String := toml.print AgentConfig.default.toDocument ++ [""]

/-- `setup_agent_config`, the text of `agent.toml`. -/
def setupAgentConfig (toml : Codec) (i : Installer) : List String :=
  let text := initConfig toml
  let text := text.map (Sed.substitute "host_id = " ("host_id = \"" ++ i.hid ++ "\""))
  let text := text.map (Sed.substitute "token = " ("token = \"" ++ i.token.text ++ "\""))
  let text :=
    if i.coordinatorUrl.text ≠ "" then
      text.map (Sed.substitute "coordinator_url = "
        ("coordinator_url = \"" ++ i.coordinatorUrl.text ++ "\""))
    else text.map (Sed.substitute "coordinator_url = " "coordinator_url = \"\"")
  if i.wantTailscale then
    Sed.range (Sed.starts "[tailscale]") (Sed.starts "[")
      (Sed.substitute "enabled = " "enabled = true") false text
  else text

def Reaches (i : Installer) (c : AgentConfig) : Prop :=
  ∃ enabled, c = { AgentConfig.default with
    hostId := some i.hid
    token := some i.token.text
    coordinatorUrl := i.coordinatorUrl.text
    tailscaleEnabled := enabled }

def written (i : Installer) : AgentConfig :=
  { AgentConfig.default with
    coordinatorUrl := i.coordinatorUrl.text
    tailscaleEnabled := i.wantTailscale }

variable {toml : Codec} {i : Installer}

theorem plainTexts_default : AgentConfig.default.PlainTexts := by
  refine ⟨by simp [AgentConfig.default], by simp [AgentConfig.default], ?_, ?_, ?_⟩
  · exact Value.isPlain_string (by decide +kernel)
  · rintro _ ⟨⟩
    exact Value.isPlain_string (by decide +kernel)
  · rintro _ ⟨⟩
    exact Value.isPlain_string (by decide +kernel)

variable {c : AgentConfig} {url : String}

theorem plainTexts_url (hc : c.PlainTexts) (hurl : ∀ x ∈ url.toList, IsPlain x) :
    { c with coordinatorUrl := url }.PlainTexts := { hc with coordinatorUrl := hurl }

theorem substitute_text {d : Document} (hd : d.IsPlain) (key s : String) (hkey : IsBare key) :
    (d.lines ++ [""]).map (Sed.substitute (key ++ " = ") (key ++ " = \"" ++ s ++ "\"")) =
      (d.set key (.string s)).lines ++ [""] := by
  have hline : Document.entryLine (key, .string s) = key ++ " = \"" ++ s ++ "\"" := by
    rw [← String.toList_inj]
    simp [Document.entryLine, Value.text]
  have hset := Document.substitute_lines (v := .string s) hd hkey 1
  rwa [hline] at hset

theorem set_default {key : String} (hkey : key = "host_id" ∨ key = "token") (v : Value) :
    AgentConfig.default.toDocument.set key v = AgentConfig.default.toDocument := by
  rcases hkey with rfl | rfl <;>
    simp [AgentConfig.default, AgentConfig.toDocument, Document.set, Document.setEntry]

theorem set_url (c : AgentConfig) (url : String) :
    c.toDocument.set "coordinator_url" (.string url) =
      { c with coordinatorUrl := url }.toDocument := by
  simp [AgentConfig.toDocument, Document.set, Document.setEntry, Function.comp_def]

theorem range_enabled (hc : c.PlainTexts) :
    Sed.range (Sed.starts "[tailscale]") (Sed.starts "[")
        (Sed.substitute "enabled = " "enabled = true") false (c.toDocument.lines ++ [""]) =
      { c with tailscaleEnabled := true }.toDocument.lines ++ [""] :=
  Document.range_lines (v := .boolean true) (AgentConfig.isPlain_toDocument hc)
    (by decide : IsBare "enabled") rfl 1

/-- The text that is written is that of the configuration that gets through. -/
theorem setupAgentConfig_eq (htoml : toml.Documented) :
    i.setupAgentConfig toml = i.written.toDocument.lines ++ [""] := by
  have hurl : ∀ c ∈ i.coordinatorUrl.text.toList, IsPlain c := fun c hc =>
    (i.coordinatorUrl.plain c hc).2.2
  have hdefault := AgentConfig.isPlain_toDocument plainTexts_default
  have hinit : initConfig toml = AgentConfig.default.toDocument.lines ++ [""] := by
    rw [initConfig, htoml.print_eq _ hdefault]
  have hhost := substitute_text hdefault "host_id" i.hid (by decide)
  have htoken := substitute_text hdefault "token" i.token.text (by decide)
  rw [set_default (by simp)] at hhost htoken
  have hcoordinator := fun url => substitute_text hdefault "coordinator_url" url (by decide)
  have hempty := hcoordinator ""
  simp only [String.reduceAppend, set_url] at hhost htoken hcoordinator hempty
  have hbranch : (if i.coordinatorUrl.text ≠ "" then
        (AgentConfig.default.toDocument.lines ++ [""]).map (Sed.substitute "coordinator_url = "
          ("coordinator_url = \"" ++ i.coordinatorUrl.text ++ "\""))
      else (AgentConfig.default.toDocument.lines ++ [""]).map
        (Sed.substitute "coordinator_url = " "coordinator_url = \"\"")) =
      { AgentConfig.default with coordinatorUrl := i.coordinatorUrl.text }.toDocument.lines ++
        [""] := by
    split_ifs with hgiven
    · exact hcoordinator _
    · rw [ne_eq, not_not] at hgiven
      rw [hgiven]
      exact hempty
  unfold setupAgentConfig
  dsimp only
  rw [hinit, hhost, htoken, hbranch]
  cases hwant : i.wantTailscale with
  | true =>
    rw [if_pos rfl, range_enabled (plainTexts_url plainTexts_default hurl), written, hwant]
  | false =>
    rw [if_neg (by decide), written, hwant]
    rfl

/-- What the agent loads behind the installer. -/
theorem loadConfig_setup (htoml : toml.Documented) (hostname : Option String) :
    loadConfig toml (some (i.setupAgentConfig toml)) hostname =
      some { i.written with hostId := some (hostnameId hostname) } := by
  have hplain : i.written.PlainTexts :=
    { plainTexts_default with coordinatorUrl := fun c hc => (i.coordinatorUrl.plain c hc).2.2 }
  have hparse := htoml.parse_eq _ 1 (AgentConfig.isPlain_toDocument hplain)
  rw [loadConfig, setupAgentConfig_eq htoml]
  dsimp only
  rw [List.replicate_one] at hparse
  rw [hparse, Option.bind_some, AgentConfig.ofDocument_toDocument]
  rfl

/-- The token never reaches the agent. It has the defaults, with the URL and the Tailscale switch of
the installer, and with the name of the machine as its host id. -/
theorem never_reaches (toml : Codec) (htoml : toml.Documented) (i : Installer)
    (hostname : Option String) : ∃ c,
      loadConfig toml (some (i.setupAgentConfig toml)) hostname = some c ∧ ¬ i.Reaches c ∧
        c = { AgentConfig.default with
          hostId := some (hostnameId hostname)
          coordinatorUrl := i.coordinatorUrl.text
          tailscaleEnabled := i.wantTailscale } := by
  refine ⟨_, loadConfig_setup htoml hostname, ?_, rfl⟩
  rintro ⟨enabled, h⟩
  have htoken := congrArg AgentConfig.token h
  cases htoken

/-- An installation for an office machine whose `/etc/hostname` is `office-pc`. -/
def office : Installer where
  hostId := ⟨"office", plain_of_all (by decide)⟩
  hostname := ⟨"office-pc", plain_of_all (by decide)⟩
  token := ⟨"4fa1c09e", plain_of_all (by decide)⟩
  coordinatorUrl := ⟨"ws://example.com:21150/ws/agent", plain_of_all (by decide)⟩
  withoutTailscale := false
  withTailscale := false
  role := "agent"

theorem never_reaches_office : ∃ c,
    loadConfig .plain (some (office.setupAgentConfig .plain)) (some "office-pc\n") = some c ∧
      ¬ office.Reaches c ∧
      c = { AgentConfig.default with
        hostId := some (hostnameId (some "office-pc\n"))
        coordinatorUrl := "ws://example.com:21150/ws/agent"
        tailscaleEnabled := office.wantTailscale } :=
  never_reaches .plain Codec.plain_documented office (some "office-pc\n")

/-- The agent is called after its machine, and it has no token. -/
theorem office_lost :
    (loadConfig .plain (some (office.setupAgentConfig .plain)) (some "office-pc\n")).map
        (fun c => (c.hostId, c.token, c.coordinatorUrl)) =
      some (some "office-pc", none, "ws://example.com:21150/ws/agent") ∧
    ¬ ∃ c, loadConfig .plain (some (office.setupAgentConfig .plain)) (some "office-pc\n") =
      some c ∧ office.Reaches c := by
  have hloaded : (loadConfig .plain (some (office.setupAgentConfig .plain))
      (some "office-pc\n")).map (fun c => (c.hostId, c.token, c.coordinatorUrl)) =
        some (some "office-pc", none, "ws://example.com:21150/ws/agent") := by
    have hname : hostnameId (some "office-pc\n") = "office-pc" := by decide
    rw [loadConfig_setup Codec.plain_documented, hname]
    rfl
  refine ⟨hloaded, ?_⟩
  rintro ⟨c, hc, enabled, rfl⟩
  rw [hc] at hloaded
  simp at hloaded

end Installer

end Urc
