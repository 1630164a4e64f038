import Urc.Common.JsonText
import Urc.Common.Message

/-! # The wire format

The texts of the three message families: internally tagged enums, written by `serde_json` as one
object with the tag in front. A reader looks at the tag first, so a text that one family reads is
none for the others, and a frame can be taken for the message that it carries.
-/

namespace Urc

open Radix JsonText

/-! ### Session ids -/

namespace Uuid

def groups (s : List Char) : List (List Char) :=
  [s.take 8, (s.drop 8).take 4, (s.drop 12).take 4, (s.drop 16).take 4, s.drop 20]

/-- The hyphenated form in lower case, as `serialize` writes it. -/
def hyphenated (u : Uuid) : String :=
  .ofList (['-'].intercalate (groups ((digits 16 32 u.bits.toNat).map Nat.digitChar)))

def parseSimple (s : List Char) : Option Uuid :=
  if s.length = 32 then (s.mapM hexValue).map fun ds => ⟨.ofNat 128 (value 16 ds)⟩ else none

def parseHyphenated (s : List Char) : Option Uuid :=
  let gs := s.splitOn '-'
  if gs.map List.length = [8, 4, 4, 4, 12] then parseSimple gs.flatten else none

/-- `Uuid::parse_str`: without hyphens, with them, in braces, or as a URN. -/
def parseStr (s : String) : Option Uuid :=
  let s := s.toList
  if s.length = 32 then parseSimple s
  else if s.length = 38 ∧ s.head? = some '{' ∧ s.getLast? = some '}' then
    parseHyphenated s.tail.dropLast
  else if s.length = 45 ∧ s.take 9 = "urn:uuid:".toList then parseHyphenated (s.drop 9)
  else parseHyphenated s

theorem flatten_groups (s : List Char) : (groups s).flatten = s := by
  have hdrop : ∀ n k, (s.drop n).take k ++ s.drop (n + k) = s.drop n := fun n k => by
    rw [← List.drop_drop, List.take_append_drop]
  simp only [groups, List.flatten_cons, List.flatten_nil, List.append_nil]
  rw [hdrop 16 4, hdrop 12 4, hdrop 8 4, List.take_append_drop]

theorem length_hyphenated {s : List Char} (hs : s.length = 32) :
    (['-'].intercalate (groups s)).length = 36 := by
  simp [groups, List.intercalate, List.intersperse, hs]

theorem parseSimple_digits (u : Uuid) :
    parseSimple ((digits 16 32 u.bits.toNat).map Nat.digitChar) = some u := by
  have hread : ((digits 16 32 u.bits.toNat).map Nat.digitChar).mapM hexValue =
      some (digits 16 32 u.bits.toNat) :=
    mapM_read (fun n hn => hexValue_digitChar hn) fun d hd => lt_of_mem_digits (by omega) hd
  have hvalue : value 16 (digits 16 32 u.bits.toNat) = u.bits.toNat := by
    apply value_digits
    have hlt := u.bits.isLt
    omega
  rw [parseSimple, if_pos (by simp), hread, Option.map_some, hvalue, BitVec.ofNat_toNat,
    BitVec.setWidth_eq]

theorem parseStr_hyphenated (u : Uuid) : parseStr u.hyphenated = some u := by
  obtain ⟨s, hs⟩ : ∃ s, s = (digits 16 32 u.bits.toNat).map Nat.digitChar := ⟨_, rfl⟩
  have hlen : s.length = 32 := by simp [hs]
  have hhyphen : ∀ g ∈ groups s, '-' ∉ g := by
    intro g hg hmem
    have hin : '-' ∈ s := by
      rw [← flatten_groups s]
      exact List.mem_flatten.mpr ⟨g, hg, hmem⟩
    rw [hs] at hin
    obtain ⟨d, hd, hchar⟩ := List.mem_map.mp hin
    have hread := hexValue_digitChar (lt_of_mem_digits (by omega) hd)
    rw [hchar] at hread
    cases hread
  have hsplit : (['-'].intercalate (groups s)).splitOn '-' = groups s :=
    List.splitOn_intercalate '-' hhyphen (by simp [groups])
  have hlens : (groups s).map List.length = [8, 4, 4, 4, 12] := by simp [groups, hlen]
  have hparse : parseHyphenated (['-'].intercalate (groups s)) = some u := by
    rw [parseHyphenated, hsplit, if_pos hlens, flatten_groups, hs, parseSimple_digits]
  rw [parseStr, hyphenated, String.toList_ofList, ← hs]
  simpa [length_hyphenated hlen] using hparse

end Uuid

/-! ### Enums and their fields -/

inductive Content
  | members (ms : List (String × Json))
  | items (js : List Json)

def tagged (tag : String) (fields : List (String × Json)) : Json :=
  .object (("type", .string tag) :: fields)

/-- The tag of an internally tagged enum: one member of an object, or the first item of an array. -/
def readTagged : Json → Option (String × Content)
  | .object ms =>
    match ms.filter (·.1 = "type") with
    | [(_, .string tag)] => some (tag, .members (ms.filter (·.1 ≠ "type")))
    | _ => none
  | .array (.string tag :: items) => some (tag, .items items)
  | _ => none

/-- The fields of a variant. No field may be given twice; an array gives all of them in order. -/
def Content.fields (names : List String) : Content → Option (String → Option Json)
  | .members ms =>
    if names.all fun n => (ms.filter (·.1 = n)).length ≤ 1 then
      some fun n => (Json.object ms).get n
    else none
  | .items js =>
    if js.length = names.length then some fun n => (Json.object (names.zip js)).get n else none

namespace Json

def asU16 : Json → Option UInt16
  | .number text =>
    (readNat text.toList).bind fun n => if n < 2 ^ 16 then some (.ofNat n) else none
  | _ => none

/-- A field of type `Option<String>`, which may be missing. -/
def asOptStr : Option Json → Option (Option String)
  | none | some .null => some none
  | some (.string s) => some (some s)
  | _ => none

/-- The module `serde_bytes`. -/
def asBytes (j : Json) : Option (List UInt8) := j.asStr.bind fun s => decode64 s.toList

def asVariant : Json → Option String
  | .string v | .object [(v, .null)] | .object [(v, .object [])] => some v
  | _ => none

end Json

def TunnelTarget.toJson : TunnelTarget → Json
  | .vnc => .string "vnc"

def TunnelTarget.fromJson (j : Json) : Option TunnelTarget :=
  match j.asVariant with
  | some "vnc" => some .vnc
  | _ => none

def RelayMode.toJson : RelayMode → Json
  | .direct => .string "direct"
  | .relayed => .string "relayed"

def RelayMode.fromJson (j : Json) : Option RelayMode :=
  match j.asVariant with
  | some "direct" => some .direct
  | some "relayed" => some .relayed
  | _ => none

def Uuid.toJson (u : Uuid) : Json := .string u.hyphenated

def Uuid.fromJson (j : Json) : Option Uuid := j.asStr.bind Uuid.parseStr

namespace AgentMessage

def toJson : AgentMessage → Json
  | register hostId token tailscaleIp vncLocalPort => tagged "register" [
      ("host_id", .string hostId), ("token", .string token),
      ("tailscale_ip", tailscaleIp.elim .null .string),
      ("vnc_local_port", .number (toString vncLocalPort.toNat))]
  | heartbeat hostId => tagged "heartbeat" [("host_id", .string hostId)]
  | tunnelReady sessionId target => tagged "tunnel_ready" [
      ("session_id", sessionId.toJson), ("target", target.toJson)]
  | tunnelData sessionId target data => tagged "tunnel_data" [
      ("session_id", sessionId.toJson), ("target", target.toJson),
      ("data", .string (.ofList (encode64 data)))]
  | tunnelClose sessionId target => tagged "tunnel_close" [
      ("session_id", sessionId.toJson), ("target", target.toJson)]

def fromJson (j : Json) : Option AgentMessage :=
  match readTagged j with
  | some ("register", c) => do
    let get ← c.fields ["host_id", "token", "tailscale_ip", "vnc_local_port"]
    some (register (← (get "host_id").bind Json.asStr) (← (get "token").bind Json.asStr)
      (← Json.asOptStr (get "tailscale_ip")) (← (get "vnc_local_port").bind Json.asU16))
  | some ("heartbeat", c) => do
    let get ← c.fields ["host_id"]
    some (heartbeat (← (get "host_id").bind Json.asStr))
  | some ("tunnel_ready", c) => do
    let get ← c.fields ["session_id", "target"]
    some (tunnelReady (← (get "session_id").bind Uuid.fromJson)
      (← (get "target").bind TunnelTarget.fromJson))
  | some ("tunnel_data", c) => do
    let get ← c.fields ["session_id", "target", "data"]
    some (tunnelData (← (get "session_id").bind Uuid.fromJson)
      (← (get "target").bind TunnelTarget.fromJson) (← (get "data").bind Json.asBytes))
  | some ("tunnel_close", c) => do
    let get ← c.fields ["session_id", "target"]
    some (tunnelClose (← (get "session_id").bind Uuid.fromJson)
      (← (get "target").bind TunnelTarget.fromJson))
  | _ => none

end AgentMessage

namespace ClientMessage

def toJson : ClientMessage → Json
  | connect hostId token => tagged "connect" [
      ("host_id", .string hostId), ("token", .string token)]
  | disconnect sessionId => tagged "disconnect" [("session_id", sessionId.toJson)]

def fromJson (j : Json) : Option ClientMessage :=
  match readTagged j with
  | some ("connect", c) => do
    let get ← c.fields ["host_id", "token"]
    some (connect (← (get "host_id").bind Json.asStr) (← (get "token").bind Json.asStr))
  | some ("disconnect", c) => do
    let get ← c.fields ["session_id"]
    some (disconnect (← (get "session_id").bind Uuid.fromJson))
  | _ => none

end ClientMessage

namespace CoordinatorMessage

def toJson : CoordinatorMessage → Json
  | registered hostId => tagged "registered" [("host_id", .string hostId)]
  | connectOk sessionId relayMode => tagged "connect_ok" [
      ("session_id", sessionId.toJson), ("relay_mode", relayMode.toJson)]
  | connectErr reason => tagged "connect_err" [("reason", .string reason)]
  | relayHint sessionId coordinatorAddr => tagged "relay_hint" [
      ("session_id", sessionId.toJson), ("coordinator_addr", .string coordinatorAddr)]
  | error message => tagged "error" [("message", .string message)]

def fromJson (j : Json) : Option CoordinatorMessage :=
  match readTagged j with
  | some ("registered", c) => do
    let get ← c.fields ["host_id"]
    some (registered (← (get "host_id").bind Json.asStr))
  | some ("connect_ok", c) => do
    let get ← c.fields ["session_id", "relay_mode"]
    some (connectOk (← (get "session_id").bind Uuid.fromJson)
      (← (get "relay_mode").bind RelayMode.fromJson))
  | some ("connect_err", c) => do
    let get ← c.fields ["reason"]
    some (connectErr (← (get "reason").bind Json.asStr))
  | some ("relay_hint", c) => do
    let get ← c.fields ["session_id", "coordinator_addr"]
    some (relayHint (← (get "session_id").bind Uuid.fromJson)
      (← (get "coordinator_addr").bind Json.asStr))
  | some ("error", c) => do
    let get ← c.fields ["message"]
    some (error (← (get "message").bind Json.asStr))
  | _ => none

end CoordinatorMessage

/-- The derived `Serialize` and `Deserialize` of a message type, with the tags of its variants. -/
class Wire (α : Type) where
  toJson : α → Json
  fromJson : Json → Option α
  tags : List String

instance : Wire AgentMessage where
  toJson := AgentMessage.toJson
  fromJson := AgentMessage.fromJson
  tags := ["register", "heartbeat", "tunnel_ready", "tunnel_data", "tunnel_close"]

instance : Wire ClientMessage where
  toJson := ClientMessage.toJson
  fromJson := ClientMessage.fromJson
  tags := ["connect", "disconnect"]

instance : Wire CoordinatorMessage where
  toJson := CoordinatorMessage.toJson
  fromJson := CoordinatorMessage.fromJson
  tags := ["registered", "connect_ok", "connect_err", "relay_hint", "error"]

/-- A family that reads its own values, by the tags of its variants. -/
class LawfulWire (α : Type) [Wire α] : Prop where
  wellFormed : ∀ m : α, WellFormed (Wire.toJson m)
  fromJson_toJson : ∀ m : α, Wire.fromJson (Wire.toJson m) = some m
  hasTag : ∀ j (m : α), Wire.fromJson j = some m →
    ∃ tag c, readTagged j = some (tag, c) ∧ tag ∈ Wire.tags α

namespace JsonCodec

variable {α β : Type} [Wire α] [Wire β] (json : JsonCodec)

def toWsMessage (msg : α) : String := json.print (Wire.toJson msg)

def parseWsMessage (text : String) : Option α := (json.parse text).bind Wire.fromJson

theorem parse_toWsMessage [LawfulWire α] (m : α) :
    json.parseWsMessage (json.toWsMessage m) = some m := by
  rw [parseWsMessage, toWsMessage, json.parse_print _ (LawfulWire.wellFormed m), Option.bind_some,
    LawfulWire.fromJson_toJson]

/-- A text is read by one family at most: its tag is of one. -/
theorem parse_eq_none [LawfulWire α] [LawfulWire β] (hd : (Wire.tags α).Disjoint (Wire.tags β))
    {text : String} {m : α} (h : json.parseWsMessage text = some m) :
    (json.parseWsMessage text : Option β) = none := by
  obtain ⟨j, hj, hm⟩ := Option.bind_eq_some_iff.mp h
  obtain ⟨tag, c, hread, hmem⟩ := LawfulWire.hasTag j m hm
  rw [Option.eq_none_iff_forall_ne_some]
  intro m' h'
  rw [parseWsMessage, hj, Option.bind_some] at h'
  obtain ⟨tag', c', hread', hmem'⟩ := LawfulWire.hasTag j m' h'
  rw [hread] at hread'
  cases hread'
  exact hd hmem hmem'

end JsonCodec

/-! ### Each family reads its own texts, and no other does -/

@[simp] theorem asU16_number (n : UInt16) : (Json.number n.toNat.repr).asU16 = some n := by
  have hlt : n.toNat < 2 ^ 16 := n.toNat_lt
  rw [Json.asU16, ← Nat.toString_eq_repr, readNat_toString, Option.bind_some, if_pos hlt,
    UInt16.ofNat_toNat]

@[simp] theorem asOptStr_elim (s : Option String) :
    Json.asOptStr (some (s.elim .null .string)) = some s := by
  cases s <;> rfl

@[simp] theorem fromJson_uuid (u : Uuid) : Uuid.fromJson u.toJson = some u := by
  rw [Uuid.fromJson, Uuid.toJson, Json.asStr, Option.bind_some, Uuid.parseStr_hyphenated]

@[simp] theorem fromJson_target (t : TunnelTarget) : TunnelTarget.fromJson t.toJson = some t := by
  cases t
  rfl

@[simp] theorem fromJson_relayMode (m : RelayMode) : RelayMode.fromJson m.toJson = some m := by
  cases m <;> rfl

@[simp] theorem asBytes_encode64 (data : List UInt8) :
    (Json.string (.ofList (encode64 data))).asBytes = some data := by
  simp [Json.asBytes, Json.asStr, decode64_encode64]

theorem readTagged_tagged (tag : String) (fields : List (String × Json))
    (h : fields.all (·.1 ≠ "type") = true) :
    readTagged (tagged tag fields) = some (tag, .members fields) := by
  have hname : ∀ f ∈ fields, f.1 ≠ "type" := by simpa using h
  have hothers : fields.filter (·.1 = "type") = [] :=
    List.filter_eq_nil_iff.mpr fun f hf => by simpa using hname f hf
  have hfields : fields.filter (·.1 ≠ "type") = fields :=
    List.filter_eq_self.mpr fun f hf => by simpa using hname f hf
  simp only [tagged, readTagged, List.filter_cons, hothers, hfields]
  rfl

theorem fromJson_agentMessage (m : AgentMessage) : AgentMessage.fromJson m.toJson = some m := by
  cases m with
  | register hostId token ip port =>
    simp [AgentMessage.toJson, AgentMessage.fromJson, readTagged_tagged, Content.fields, Json.get,
      Json.asStr]
  | heartbeat hostId =>
    simp [AgentMessage.toJson, AgentMessage.fromJson, readTagged_tagged, Content.fields, Json.get,
      Json.asStr]
  | tunnelReady id target =>
    simp [AgentMessage.toJson, AgentMessage.fromJson, readTagged_tagged, Content.fields, Json.get]
  | tunnelData id target data =>
    simp [AgentMessage.toJson, AgentMessage.fromJson, readTagged_tagged, Content.fields, Json.get]
  | tunnelClose id target =>
    simp [AgentMessage.toJson, AgentMessage.fromJson, readTagged_tagged, Content.fields, Json.get]

theorem fromJson_clientMessage (m : ClientMessage) : ClientMessage.fromJson m.toJson = some m := by
  cases m with
  | connect hostId token =>
    simp [ClientMessage.toJson, ClientMessage.fromJson, readTagged_tagged, Content.fields,
      Json.get, Json.asStr]
  | disconnect id =>
    simp [ClientMessage.toJson, ClientMessage.fromJson, readTagged_tagged, Content.fields,
      Json.get]

theorem fromJson_coordinatorMessage (m : CoordinatorMessage) :
    CoordinatorMessage.fromJson m.toJson = some m := by
  cases m with
  | registered hostId =>
    simp [CoordinatorMessage.toJson, CoordinatorMessage.fromJson, readTagged_tagged,
      Content.fields, Json.get, Json.asStr]
  | connectOk id mode =>
    simp [CoordinatorMessage.toJson, CoordinatorMessage.fromJson, readTagged_tagged,
      Content.fields, Json.get]
  | connectErr reason =>
    simp [CoordinatorMessage.toJson, CoordinatorMessage.fromJson, readTagged_tagged,
      Content.fields, Json.get, Json.asStr]
  | relayHint id addr =>
    simp [CoordinatorMessage.toJson, CoordinatorMessage.fromJson, readTagged_tagged,
      Content.fields, Json.get, Json.asStr]
  | error message =>
    simp [CoordinatorMessage.toJson, CoordinatorMessage.fromJson, readTagged_tagged,
      Content.fields, Json.get, Json.asStr]

theorem wellFormed_agentMessage (m : AgentMessage) : WellFormed m.toJson := by
  cases m with
  | register hostId token ip port =>
    have hport := isNumber_nat port.toNat
    cases ip <;> simp only [AgentMessage.toJson, tagged, Option.elim, WellFormed, WellFormedMembers,
      hport, and_self]
  | _ => simp [AgentMessage.toJson, tagged, Uuid.toJson, TunnelTarget.toJson, WellFormed,
      WellFormedMembers]

theorem wellFormed_clientMessage (m : ClientMessage) : WellFormed m.toJson := by
  cases m <;> simp [ClientMessage.toJson, tagged, Uuid.toJson, WellFormed, WellFormedMembers]

theorem wellFormed_coordinatorMessage (m : CoordinatorMessage) : WellFormed m.toJson := by
  cases m with
  | connectOk id mode =>
    cases mode <;> simp [CoordinatorMessage.toJson, tagged, Uuid.toJson, RelayMode.toJson,
      WellFormed, WellFormedMembers]
  | _ => simp [CoordinatorMessage.toJson, tagged, Uuid.toJson, WellFormed, WellFormedMembers]

instance : LawfulWire AgentMessage where
  wellFormed := wellFormed_agentMessage
  fromJson_toJson := fromJson_agentMessage
  hasTag j m h := by
    simp only [Wire.fromJson, AgentMessage.fromJson] at h
    split at h
    · exact ⟨_, _, ‹_›, by simp [Wire.tags]⟩
    · exact ⟨_, _, ‹_›, by simp [Wire.tags]⟩
    · exact ⟨_, _, ‹_›, by simp [Wire.tags]⟩
    · exact ⟨_, _, ‹_›, by simp [Wire.tags]⟩
    · exact ⟨_, _, ‹_›, by simp [Wire.tags]⟩
    · cases h

instance : LawfulWire ClientMessage where
  wellFormed := wellFormed_clientMessage
  fromJson_toJson := fromJson_clientMessage
  hasTag j m h := by
    simp only [Wire.fromJson, ClientMessage.fromJson] at h
    split at h
    · exact ⟨_, _, ‹_›, by simp [Wire.tags]⟩
    · exact ⟨_, _, ‹_›, by simp [Wire.tags]⟩
    · cases h

instance : LawfulWire CoordinatorMessage where
  wellFormed := wellFormed_coordinatorMessage
  fromJson_toJson := fromJson_coordinatorMessage
  hasTag j m h := by
    simp only [Wire.fromJson, CoordinatorMessage.fromJson] at h
    split at h
    · exact ⟨_, _, ‹_›, by simp [Wire.tags]⟩
    · exact ⟨_, _, ‹_›, by simp [Wire.tags]⟩
    · exact ⟨_, _, ‹_›, by simp [Wire.tags]⟩
    · exact ⟨_, _, ‹_›, by simp [Wire.tags]⟩
    · exact ⟨_, _, ‹_›, by simp [Wire.tags]⟩
    · cases h

theorem disjoint_agent_client : (Wire.tags AgentMessage).Disjoint (Wire.tags ClientMessage) := by
  simp [Wire.tags]

theorem disjoint_agent_coordinator :
    (Wire.tags AgentMessage).Disjoint (Wire.tags CoordinatorMessage) := by
  simp [Wire.tags]

theorem disjoint_client_coordinator :
    (Wire.tags ClientMessage).Disjoint (Wire.tags CoordinatorMessage) := by
  simp [Wire.tags]

namespace JsonCodec

variable (json : JsonCodec)

/-- The message is read back from its text, and by no other family. -/
def ReadAlone {α : Type} [Wire α] (m : α) (β γ : Type) [Wire β] [Wire γ] : Prop :=
  json.parseWsMessage (json.toWsMessage m) = some m ∧
    (json.parseWsMessage (json.toWsMessage m) : Option β) = none ∧
    (json.parseWsMessage (json.toWsMessage m) : Option γ) = none

theorem readAlone {α β γ : Type} [Wire α] [Wire β] [Wire γ] [LawfulWire α] [LawfulWire β]
    [LawfulWire γ] (hβ : (Wire.tags α).Disjoint (Wire.tags β))
    (hγ : (Wire.tags α).Disjoint (Wire.tags γ)) (m : α) : json.ReadAlone m β γ :=
  have hm := json.parse_toWsMessage m
  ⟨hm, json.parse_eq_none hβ hm, json.parse_eq_none hγ hm⟩

/-- Whatever JSON is written with, as long as it can be read again, every message is read back
from its text, and by its own family only. -/
theorem messages_read_alone :
    (∀ m : AgentMessage, json.ReadAlone m ClientMessage CoordinatorMessage) ∧
    (∀ m : ClientMessage, json.ReadAlone m AgentMessage CoordinatorMessage) ∧
    ∀ m : CoordinatorMessage, json.ReadAlone m AgentMessage ClientMessage :=
  ⟨json.readAlone disjoint_agent_client disjoint_agent_coordinator,
    json.readAlone disjoint_agent_client.symm disjoint_client_coordinator,
    json.readAlone disjoint_agent_coordinator.symm disjoint_client_coordinator.symm⟩

theorem messages_read_alone_compact : JsonCodec.compact.ReadAlone
    (AgentMessage.tunnelData ⟨7⟩ .vnc [0, 255]) ClientMessage CoordinatorMessage :=
  (messages_read_alone .compact).1 _

example : JsonCodec.compact.toWsMessage (AgentMessage.heartbeat "pc") =
    "\x7b\"type\":\"heartbeat\",\"host_id\":\"pc\"\x7d" := by decide +kernel

/-! ### Frames as messages -/

/-- The text of a frame, taken for the message that a family reads from it. -/
def wsText (text : String) : WsText :=
  match (json.parseWsMessage text : Option AgentMessage),
    (json.parseWsMessage text : Option ClientMessage),
    (json.parseWsMessage text : Option CoordinatorMessage) with
  | some m, _, _ => .agent m
  | _, some m, _ => .client m
  | _, _, some m => .coordinator m
  | _, _, _ => .other text

end JsonCodec

variable (json : JsonCodec)

/-- The message that a frame is taken for is what each family reads from its text. -/
theorem parse_wsText (text : String) :
    (parseWsMessage (json.wsText text) : Option AgentMessage) = json.parseWsMessage text ∧
    (parseWsMessage (json.wsText text) : Option ClientMessage) = json.parseWsMessage text ∧
    (parseWsMessage (json.wsText text) : Option CoordinatorMessage) =
      json.parseWsMessage text := by
  cases ha : (json.parseWsMessage text : Option AgentMessage) with
  | some m =>
    have hc : (json.parseWsMessage text : Option ClientMessage) = none :=
      json.parse_eq_none disjoint_agent_client ha
    have hk : (json.parseWsMessage text : Option CoordinatorMessage) = none :=
      json.parse_eq_none disjoint_agent_coordinator ha
    simp [JsonCodec.wsText, ha, hc, hk, parseWsMessage]
  | none =>
    cases hc : (json.parseWsMessage text : Option ClientMessage) with
    | some m =>
      have hk : (json.parseWsMessage text : Option CoordinatorMessage) = none :=
        json.parse_eq_none disjoint_client_coordinator hc
      simp [JsonCodec.wsText, ha, hc, hk, parseWsMessage]
    | none =>
      cases hk : (json.parseWsMessage text : Option CoordinatorMessage) with
      | some m => simp [JsonCodec.wsText, ha, hc, hk, parseWsMessage]
      | none => simp [JsonCodec.wsText, ha, hc, hk, parseWsMessage]

/-- A frame is taken for the message that its text was written from. -/
theorem wsText_toWsMessage :
    (∀ m : AgentMessage, json.wsText (json.toWsMessage m) = toWsMessage m) ∧
    (∀ m : ClientMessage, json.wsText (json.toWsMessage m) = toWsMessage m) ∧
    ∀ m : CoordinatorMessage, json.wsText (json.toWsMessage m) = toWsMessage m := by
  refine ⟨fun m => ?_, fun m => ?_, fun m => ?_⟩
  · have hm := json.parse_toWsMessage m
    simp [JsonCodec.wsText, hm, toWsMessage]
  · have hm := json.parse_toWsMessage m
    have ha : (json.parseWsMessage (json.toWsMessage m) : Option AgentMessage) = none :=
      json.parse_eq_none disjoint_agent_client.symm hm
    simp [JsonCodec.wsText, hm, ha, toWsMessage]
  · have hm := json.parse_toWsMessage m
    have ha : (json.parseWsMessage (json.toWsMessage m) : Option AgentMessage) = none :=
      json.parse_eq_none disjoint_agent_coordinator.symm hm
    have hc : (json.parseWsMessage (json.toWsMessage m) : Option ClientMessage) = none :=
      json.parse_eq_none disjoint_client_coordinator.symm hm
    simp [JsonCodec.wsText, hm, ha, hc, toWsMessage]

end Urc
