import Urc.Common.Message

/-! # Agent configuration

The settings of `agent.toml`, with the defaults of the source.
-/

namespace Urc

def defaultWebTlsPort : UInt16 := 15901

def defaultWebInternalPort : UInt16 := 16080

inductive BackendPreference
  | auto
  | x11
  | gnome
  | wayvnc
  deriving DecidableEq

inductive EncryptionMode
  | tls
  | none
  deriving DecidableEq

structure AgentConfig where
  hostId : Option String
  token : Option String
  coordinatorUrl : String
  listenTlsPort : UInt16
  listenWebTlsPort : UInt16
  vncPasswordFile : Option String
  encryption : EncryptionMode
  insecure : Bool
  tailscaleEnabled : Bool
  tailscalePreferDirect : Bool
  filesRoot : Option String
  backend : BackendPreference
  x11ServerKeyRepeat : Bool
  deriving DecidableEq

/-- `AgentConfig::default`. -/
def AgentConfig.default : AgentConfig where
  hostId := none
  token := none
  coordinatorUrl := "wss://127.0.0.1:" ++ toString defaultCoordinatorPort.toNat
  listenTlsPort := defaultTlsListenPort
  listenWebTlsPort := defaultWebTlsPort
  vncPasswordFile := some "/etc/urc/vncpasswd"
  encryption := .tls
  insecure := false
  tailscaleEnabled := false
  tailscalePreferDirect := false
  filesRoot := some "/home"
  backend := .auto
  x11ServerKeyRepeat := false

end Urc
