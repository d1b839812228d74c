import MqttClient.Packet

/-! The written form of a packet. Its size is told before anything is written, because a packet that
is too long is refused for that before any of its fields is looked at. -/

namespace MqttClient

namespace LastWill

def flags (w : LastWill) : UInt8 := w.qos.level <<< 3 ||| w.retain.toUInt8 <<< 5 ||| 0x04

def size (w : LastWill) : Nat :=
  w.properties.size + (2 + w.topic.utf8ByteSize) + (2 + w.message.length)

def encode (w : LastWill) : Except WireError Bytes :=
  return (← Properties.encode w.properties) ++ (← encodeText w.topic)
    ++ (← encodeBinary w.message)

end LastWill

namespace Connect

def protocolName : String := "MQTT"

def protocolLevel : UInt8 := 5

def flags (p : Connect) : UInt8 :=
  p.cleanStart.toUInt8 <<< 1 ||| p.lastWill.elim 0 LastWill.flags
    ||| p.password.isSome.toUInt8 <<< 6 ||| p.username.isSome.toUInt8 <<< 7

def bodySize (p : Connect) : Nat :=
  (2 + protocolName.utf8ByteSize) + 1 + 1 + 2 + p.properties.size + (2 + p.clientId.utf8ByteSize)
    + p.lastWill.elim 0 LastWill.size
    + p.username.elim 0 (2 + ·.utf8ByteSize)
    + p.password.elim 0 (2 + ·.length)

def encodeBody (p : Connect) : Except WireError Bytes := do
  let name ← encodeText protocolName
  let properties ← Properties.encode p.properties
  let clientId ← encodeText p.clientId
  let will ← p.lastWill.elim (.ok []) LastWill.encode
  let username ← p.username.elim (.ok []) encodeText
  let password ← p.password.elim (.ok []) encodeBinary
  return name ++ [protocolLevel, p.flags] ++ Bytes.ofUInt16 p.keepAlive ++ properties ++ clientId
    ++ will ++ username ++ password

end Connect

namespace ConnAck

def bodySize (p : ConnAck) : Nat := 1 + 1 + p.properties.size

def encodeBody (p : ConnAck) : Except WireError Bytes :=
  return [p.sessionPresent.toUInt8, ReasonCode.code p.code] ++ (← Properties.encode p.properties)

end ConnAck

namespace Publish

def flags (p : Publish) : UInt8 :=
  p.dup.toUInt8 <<< 3 ||| p.qos.level <<< 1 ||| p.retain.toUInt8

def bodySize (p : Publish) : Nat :=
  (2 + p.topic.utf8ByteSize) + (if p.qos = .atMostOnce then 0 else 2) + p.properties.size
    + p.payload.length

/-- Exactly the messages that are acknowledged carry an identifier. -/
def checkPacketId (p : Publish) : Except WireError Unit :=
  match p.qos with
  | .atMostOnce => if p.packetId = 0 then .ok () else .error (.packetIdOnQoS0 p.packetId)
  | _ => if p.packetId = 0 then .error .packetIdZero else .ok ()

def encodeBody (p : Publish) : Except WireError Bytes := do
  let topic ← encodeText p.topic
  let properties ← Properties.encode p.properties
  return topic ++ (if p.qos = .atMostOnce then [] else Bytes.ofUInt16 p.packetId) ++ properties
    ++ p.payload

end Publish

namespace Ack

variable {R : Type} [ReasonCode R]

/-- A reason with code zero need not be written, nor need an empty list of properties. -/
def bodySize (a : Ack R) : Nat :=
  if a.properties.isEmpty then (if ReasonCode.code a.reason = 0 then 2 else 3)
  else 2 + 1 + a.properties.size

def encodeBody (a : Ack R) : Except WireError Bytes :=
  let code := ReasonCode.code a.reason
  if a.properties.isEmpty then
    .ok (Bytes.ofUInt16 a.packetId ++ (if code = 0 then [] else [code]))
  else return Bytes.ofUInt16 a.packetId ++ [code] ++ (← Properties.encode a.properties)

end Ack

namespace Filter

def size (f : Filter) : Nat := 2 + f.path.utf8ByteSize + 1

def options (f : Filter) : UInt8 :=
  f.qos.level ||| f.noLocal.toUInt8 <<< 2 ||| f.preserveRetain.toUInt8 <<< 3
    ||| f.retainForwardRule.number <<< 4

def encode (f : Filter) : Except WireError Bytes := return (← encodeText f.path) ++ [f.options]

end Filter

namespace Subscribe

def bodySize (p : Subscribe) : Nat := 2 + p.properties.size + p.filters.foldr (·.size + ·) 0

def encodeBody (p : Subscribe) : Except WireError Bytes := do
  let properties ← Properties.encode p.properties
  let filters ← p.filters.mapM Filter.encode
  return Bytes.ofUInt16 p.packetId ++ properties ++ filters.flatten

end Subscribe

namespace SubAck

def bodySize (p : SubAck) : Nat := 2 + p.properties.size + p.returnCodes.length

def encodeBody (p : SubAck) : Except WireError Bytes :=
  return Bytes.ofUInt16 p.packetId ++ (← Properties.encode p.properties)
    ++ p.returnCodes.map ReasonCode.code

end SubAck

namespace Unsubscribe

def bodySize (p : Unsubscribe) : Nat :=
  2 + p.properties.size + p.filters.foldr (2 + ·.utf8ByteSize + ·) 0

def encodeBody (p : Unsubscribe) : Except WireError Bytes := do
  let properties ← Properties.encode p.properties
  let filters ← p.filters.mapM encodeText
  return Bytes.ofUInt16 p.packetId ++ properties ++ filters.flatten

end Unsubscribe

namespace UnsubAck

def bodySize (p : UnsubAck) : Nat := 2 + p.properties.size + p.reasons.length

def encodeBody (p : UnsubAck) : Except WireError Bytes :=
  return Bytes.ofUInt16 p.packetId ++ (← Properties.encode p.properties)
    ++ p.reasons.map ReasonCode.code

end UnsubAck

namespace Disconnect

/-- The normal reason need not be written, nor need an empty list of properties. -/
def bodySize (p : Disconnect) : Nat :=
  if p.properties.isEmpty then (if p.reason = .normalDisconnection then 0 else 1)
  else 1 + p.properties.size

def encodeBody (p : Disconnect) : Except WireError Bytes :=
  let code := ReasonCode.code p.reason
  if p.properties.isEmpty then .ok (if p.reason = .normalDisconnection then [] else [code])
  else return [code] ++ (← Properties.encode p.properties)

end Disconnect

namespace Packet

/-- Length of what follows the length field. -/
def bodySize : Packet → Nat
  | connect p => p.bodySize
  | connAck p => p.bodySize
  | publish p => p.bodySize
  | pubAck p | pubRec p => p.bodySize
  | pubRel p | pubComp p => p.bodySize
  | subscribe p => p.bodySize
  | subAck p => p.bodySize
  | unsubscribe p => p.bodySize
  | unsubAck p => p.bodySize
  | pingReq | pingResp => 0
  | disconnect p => p.bodySize

def encodeBody : Packet → Except WireError Bytes
  | connect p => p.encodeBody
  | connAck p => p.encodeBody
  | publish p => p.encodeBody
  | pubAck p | pubRec p => p.encodeBody
  | pubRel p | pubComp p => p.encodeBody
  | subscribe p => p.encodeBody
  | subAck p => p.encodeBody
  | unsubscribe p => p.encodeBody
  | unsubAck p => p.encodeBody
  | pingReq | pingResp => .ok []
  | disconnect p => p.encodeBody

def flags : Packet → UInt8
  | publish p => p.flags
  | p => p.type.reservedFlags?.getD 0

def firstByte (p : Packet) : UInt8 := p.type.number <<< 4 ||| p.flags

def nonzeroId (packetId : UInt16) : Except WireError Unit :=
  if packetId = 0 then .error .packetIdZero else .ok ()

/-- A packet that is acknowledged, or acknowledges, has an identifier, and a subscription names
something. An acknowledgement of a subscription is not checked. -/
def check : Packet → Except WireError Unit
  | publish p => p.checkPacketId
  | pubAck p | pubRec p => nonzeroId p.packetId
  | pubRel p | pubComp p => nonzeroId p.packetId
  | subscribe p => if p.filters.isEmpty then .error .emptySubscription else nonzeroId p.packetId
  | unsubscribe p => if p.filters.isEmpty then .error .emptySubscription else nonzeroId p.packetId
  | _ => .ok ()

def encode (p : Packet) : Except WireError Bytes := do
  p.check
  let length ← VarInt.encode p.bodySize
  let body ← p.encodeBody
  return [p.firstByte] ++ length ++ body

def size (p : Packet) : Nat := 1 + VarInt.size p.bodySize + p.bodySize

/-- Puts a packet behind what a buffer holds and tells its length. The buffer stays as it is if the
packet is refused. -/
def write (p : Packet) (buffer : Bytes) : Except WireError Nat × Bytes :=
  match p.encode with
  | .ok bytes => (.ok p.size, buffer ++ bytes)
  | .error e => (.error e, buffer)

end Packet

end MqttClient
