import Mathlib.Data.BitVec

/-! # Protocol messages

The three message families of the wire protocol and the frames that carry them.
A text frame is kept as what `parse_ws_message` reads from it: the `type` tags of
the families are pairwise distinct, so a text is a message of one family or of none.
-/

namespace Urc

/-- A session identifier, made by `Uuid::new_v4`. -/
structure Uuid where
  bits : BitVec 128
  deriving DecidableEq

inductive TunnelTarget
  | vnc
  deriving DecidableEq

inductive AgentMessage
  | register (hostId token : String) (tailscaleIp : Option String) (vncLocalPort : UInt16)
  | heartbeat (hostId : String)
  | tunnelReady (sessionId : Uuid) (target : TunnelTarget)
  | tunnelData (sessionId : Uuid) (target : TunnelTarget) (data : List UInt8)
  | tunnelClose (sessionId : Uuid) (target : TunnelTarget)
  deriving DecidableEq

inductive ClientMessage
  | connect (hostId token : String)
  | disconnect (sessionId : Uuid)
  deriving DecidableEq

inductive RelayMode
  | direct
  | relayed
  deriving DecidableEq

inductive CoordinatorMessage
  | registered (hostId : String)
  | connectOk (sessionId : Uuid) (relayMode : RelayMode)
  | connectErr (reason : String)
  | relayHint (sessionId : Uuid) (coordinatorAddr : String)
  | error (message : String)
  deriving DecidableEq

def defaultCoordinatorPort : UInt16 := 21150

def defaultTlsListenPort : UInt16 := 15900

/-- The text of a frame: a message of one of the families, or a text that is none. -/
inductive WsText
  | agent (m : AgentMessage)
  | client (m : ClientMessage)
  | coordinator (m : CoordinatorMessage)
  | other (text : String)
  deriving DecidableEq

/-- The types that `to_ws_message` writes and `parse_ws_message` reads. -/
class WsMessage (α : Type) where
  toWsMessage : α → WsText
  parseWsMessage : WsText → Option α

export WsMessage (toWsMessage parseWsMessage)

instance : WsMessage AgentMessage where
  toWsMessage := .agent
  parseWsMessage
    | .agent m => some m
    | _ => none

instance : WsMessage ClientMessage where
  toWsMessage := .client
  parseWsMessage
    | .client m => some m
    | _ => none

instance : WsMessage CoordinatorMessage where
  toWsMessage := .coordinator
  parseWsMessage
    | .coordinator m => some m
    | _ => none

/-- A WebSocket frame. The reason of a close frame is left out: nothing reads it. -/
inductive Message
  | text (t : WsText)
  | binary (b : List UInt8)
  | ping (b : List UInt8)
  | pong (b : List UInt8)
  | close
  deriving DecidableEq

namespace Message

/-- The frames that carry the bytes of a tunnel. -/
def isData : Message → Bool
  | .text _ | .binary _ => true
  | _ => false

def ofMessage {α : Type} [WsMessage α] (m : α) : Message := .text (toWsMessage m)

end Message

end Urc
