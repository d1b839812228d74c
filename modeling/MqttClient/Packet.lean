import MqttClient.Property
import MqttClient.ReasonCode

/-! The control packets of the protocol. -/

namespace MqttClient

structure LastWill where
  topic : String
  message : Bytes
  qos : QoS
  retain : Bool
  properties : Properties := []
  deriving DecidableEq, Repr

/-- Opens a session. User name and password are independent of each other. -/
structure Connect where
  /-- Seconds; zero turns the keep alive off. -/
  keepAlive : UInt16 := 10
  clientId : String
  cleanStart : Bool := true
  properties : Properties := []
  lastWill : Option LastWill := none
  username : Option String := none
  password : Option Bytes := none
  deriving DecidableEq, Repr

structure ConnAck where
  sessionPresent : Bool
  code : ConnectReason
  properties : Properties := []
  deriving DecidableEq, Repr

structure Publish where
  dup : Bool := false
  qos : QoS
  retain : Bool := false
  topic : String
  /-- Zero for a message of quality `atMostOnce`, which carries none. -/
  packetId : UInt16 := 0
  properties : Properties := []
  payload : Bytes
  deriving DecidableEq, Repr

structure Ack (R : Type) where
  packetId : UInt16
  reason : R
  properties : Properties := []
  deriving DecidableEq, Repr

inductive RetainForwardRule
  | onEverySubscribe
  | onNewSubscribe
  | never
  deriving DecidableEq, Repr, Inhabited

structure Filter where
  path : String
  qos : QoS
  noLocal : Bool := false
  preserveRetain : Bool := false
  retainForwardRule : RetainForwardRule := .onEverySubscribe
  deriving DecidableEq, Repr

structure Subscribe where
  packetId : UInt16 := 0
  filters : List Filter
  properties : Properties := []
  deriving DecidableEq, Repr

structure SubAck where
  packetId : UInt16
  returnCodes : List SubscribeReason
  properties : Properties := []
  deriving DecidableEq, Repr

structure Unsubscribe where
  packetId : UInt16 := 0
  filters : List String
  properties : Properties := []
  deriving DecidableEq, Repr

structure UnsubAck where
  packetId : UInt16
  reasons : List UnsubscribeReason
  properties : Properties := []
  deriving DecidableEq, Repr

structure Disconnect where
  reason : DisconnectReason := .normalDisconnection
  properties : Properties := []
  deriving DecidableEq, Repr

inductive Packet
  | connect (p : Connect)
  | connAck (p : ConnAck)
  | publish (p : Publish)
  | pubAck (p : Ack PublishReason)
  | pubRec (p : Ack PublishReason)
  | pubRel (p : Ack ReleaseReason)
  | pubComp (p : Ack ReleaseReason)
  | subscribe (p : Subscribe)
  | subAck (p : SubAck)
  | unsubscribe (p : Unsubscribe)
  | unsubAck (p : UnsubAck)
  | pingReq
  | pingResp
  | disconnect (p : Disconnect)
  deriving DecidableEq, Repr

inductive PacketType
  | connect
  | connAck
  | publish
  | pubAck
  | pubRec
  | pubRel
  | pubComp
  | subscribe
  | subAck
  | unsubscribe
  | unsubAck
  | pingReq
  | pingResp
  | disconnect
  deriving DecidableEq, Repr

namespace PacketType

def number : PacketType → UInt8
  | connect => 1
  | connAck => 2
  | publish => 3
  | pubAck => 4
  | pubRec => 5
  | pubRel => 6
  | pubComp => 7
  | subscribe => 8
  | subAck => 9
  | unsubscribe => 10
  | unsubAck => 11
  | pingReq => 12
  | pingResp => 13
  | disconnect => 14

def ofNumber? : UInt8 → Option PacketType
  | 1 => some connect
  | 2 => some connAck
  | 3 => some publish
  | 4 => some pubAck
  | 5 => some pubRec
  | 6 => some pubRel
  | 7 => some pubComp
  | 8 => some subscribe
  | 9 => some subAck
  | 10 => some unsubscribe
  | 11 => some unsubAck
  | 12 => some pingReq
  | 13 => some pingResp
  | 14 => some disconnect
  | _ => none

/-- The low half of the first byte, where it is fixed; in a message it holds flags. -/
def reservedFlags? : PacketType → Option UInt8
  | publish => none
  | pubRel | subscribe | unsubscribe => some 2
  | _ => some 0

@[simp] theorem ofNumber?_number (t : PacketType) : ofNumber? t.number = some t := by
  cases t <;> rfl

end PacketType

def Packet.type : Packet → PacketType
  | connect _ => .connect
  | connAck _ => .connAck
  | publish _ => .publish
  | pubAck _ => .pubAck
  | pubRec _ => .pubRec
  | pubRel _ => .pubRel
  | pubComp _ => .pubComp
  | subscribe _ => .subscribe
  | subAck _ => .subAck
  | unsubscribe _ => .unsubscribe
  | unsubAck _ => .unsubAck
  | pingReq => .pingReq
  | pingResp => .pingResp
  | disconnect _ => .disconnect

def Publish.summary (p : Publish) : String :=
  s!"Topic = {p.topic}, Qos = {p.qos.name}, Retain = {p.retain}, Pkid = {p.packetId}, " ++
    s!"Dup = {p.dup}, Payload Size = {p.payload.length}"

namespace RetainForwardRule

def number : RetainForwardRule → UInt8
  | onEverySubscribe => 0
  | onNewSubscribe => 1
  | never => 2

def ofNumber? : UInt8 → Option RetainForwardRule
  | 0 => some onEverySubscribe
  | 1 => some onNewSubscribe
  | 2 => some never
  | _ => none

@[simp] theorem ofNumber?_number (r : RetainForwardRule) : ofNumber? r.number = some r := by
  cases r <;> rfl

end RetainForwardRule

end MqttClient
