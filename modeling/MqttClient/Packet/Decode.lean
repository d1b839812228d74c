import MqttClient.Packet.Encode

/-! Reading the body of a packet. Bytes behind the last field of a body are not looked at, except
where the rest of the body is the payload or a list. -/

namespace MqttClient

open Decoder

def Decoder.nonzeroId : Decoder UInt16 := do
  let id ← twoBytes
  if id = 0 then throw .packetIdZero
  return id

/-- A byte that names a reason; `refused` is the error for any other byte. -/
def Decoder.reasonOr {R : Type} [ReasonCode R] (refused : UInt8 → WireError) (c : UInt8) :
    Except WireError R :=
  match ReasonCode.ofCode? c with
  | some r => .ok r
  | none => .error (refused c)

def Decoder.reasonList {R : Type} [ReasonCode R] (refused : UInt8 → WireError) :
    Decoder (List R) :=
  fun b => (b.mapM (reasonOr refused)).map (·, [])

def QoS.decode (level : UInt8) : Except WireError QoS :=
  match QoS.ofLevel? level with
  | some q => .ok q
  | none => .error (.invalidQoS level)

/-- The will that the flags of a connection request announce. Without one, its quality and its
retain flag are zero. -/
def LastWill.decode (flags : UInt8) : Decoder (Option LastWill) := do
  if flags &&& 0x04 = 0 then
    if flags &&& 0x38 ≠ 0 then throw .incorrectPacketFormat
    return none
  let properties ← Properties.decode
  let topic ← text
  let message ← binary
  let qos ← QoS.decode ((flags &&& 0x18) >>> 3)
  return some { topic, message, qos, retain := flags &&& 0x20 ≠ 0, properties }

def Connect.decode : Decoder Connect := do
  if (← text) ≠ protocolName then throw .invalidProtocol
  let level ← byte
  if level ≠ protocolLevel then throw (.invalidProtocolLevel level)
  let flags ← byte
  if flags &&& 0x01 ≠ 0 then throw .incorrectPacketFormat
  let keepAlive ← twoBytes
  let properties ← Properties.decode
  let clientId ← text
  let lastWill ← LastWill.decode flags
  let username ← if flags &&& 0x80 = 0 then pure none else some <$> text
  let password ← if flags &&& 0x40 = 0 then pure none else some <$> binary
  return { keepAlive, clientId, cleanStart := flags &&& 0x02 ≠ 0, properties, lastWill, username,
           password }

/-- A broker may leave out an empty list of properties. -/
def ConnAck.decode : Decoder ConnAck := do
  let flags ← byte
  if flags &&& 0xFE ≠ 0 then throw .incorrectPacketFormat
  let code ← reasonOr .invalidConnectReturnCode (← byte)
  let properties ← if ← atEnd then pure [] else Properties.decode
  return { sessionPresent := flags &&& 0x01 ≠ 0, code, properties }

def Publish.decode (flags : UInt8) : Decoder Publish := do
  let qos ← QoS.decode ((flags &&& 0x06) >>> 1)
  let topic ← text
  let packetId ← if qos = .atMostOnce then pure 0 else nonzeroId
  let properties ← Properties.decode
  let payload ← remaining
  return { dup := flags &&& 0x08 ≠ 0, qos, retain := flags &&& 0x01 ≠ 0, topic, packetId,
           properties, payload }

/-- Reason and properties are absent from a body of two bytes, the properties from one of three. The
reason is judged last. -/
def Ack.decode {R : Type} [ReasonCode R] (bodySize : Nat) : Decoder (Ack R) := do
  let packetId ← nonzeroId
  let code ← if bodySize = 2 then pure 0 else byte
  let properties ← if bodySize ≤ 3 then pure [] else Properties.decode
  let reason ← reasonOr .invalidReason code
  return { packetId, reason, properties }

def Filter.decode : Decoder Filter := do
  let path ← text
  let options ← byte
  if options &&& 0xC0 ≠ 0 then throw .incorrectPacketFormat
  let rule := (options >>> 4) &&& 0x03
  match RetainForwardRule.ofNumber? rule with
  | some retainForwardRule =>
    let qos ← QoS.decode (options &&& 0x03)
    return { path, qos, noLocal := options &&& 0x04 ≠ 0, preserveRetain := options &&& 0x08 ≠ 0,
             retainForwardRule }
  | none => throw (.invalidRetainForwardRule rule)

def Subscribe.decode : Decoder Subscribe := do
  let packetId ← nonzeroId
  let properties ← Properties.decode
  let filters ← items Filter.decode
  if filters.isEmpty then throw .emptySubscription
  return { packetId, filters, properties }

def SubAck.decode : Decoder SubAck := do
  let packetId ← twoBytes
  let properties ← Properties.decode
  if ← atEnd then throw .malformedPacket
  let returnCodes ← reasonList .invalidSubscribeReasonCode
  return { packetId, returnCodes, properties }

def Unsubscribe.decode : Decoder Unsubscribe := do
  let packetId ← nonzeroId
  let properties ← Properties.decode
  let filters ← items text
  if filters.isEmpty then throw .emptySubscription
  return { packetId, filters, properties }

def UnsubAck.decode : Decoder UnsubAck := do
  let packetId ← twoBytes
  let properties ← Properties.decode
  let reasons ← reasonList .invalidReason
  return { packetId, reasons, properties }

def Disconnect.decode : Decoder Disconnect := do
  let reason ← reasonOr .invalidReason (← byte)
  let properties ← if ← atEnd then pure [] else Properties.decode
  return { reason, properties }

namespace Packet

/-- Reads a body that is not empty. -/
def decodeBody (type : PacketType) (flags : UInt8) (body : Bytes) : Except WireError Packet :=
  match type with
  | .connect => within body (connect <$> Connect.decode)
  | .connAck => within body (connAck <$> ConnAck.decode)
  | .publish => within body (publish <$> Publish.decode flags)
  | .pubAck => within body (pubAck <$> Ack.decode body.length)
  | .pubRec => within body (pubRec <$> Ack.decode body.length)
  | .pubRel => within body (pubRel <$> Ack.decode body.length)
  | .pubComp => within body (pubComp <$> Ack.decode body.length)
  | .subscribe => within body (subscribe <$> Subscribe.decode)
  | .subAck => within body (subAck <$> SubAck.decode)
  | .unsubscribe => within body (unsubscribe <$> Unsubscribe.decode)
  | .unsubAck => within body (unsubAck <$> UnsubAck.decode)
  | .pingReq | .pingResp => .error .malformedPacket
  | .disconnect => within body (disconnect <$> Disconnect.decode)

/-- Only the pings and the normal disconnection may come without a body. -/
def withoutBody : PacketType → Except WireError Packet
  | .pingReq => .ok pingReq
  | .pingResp => .ok pingResp
  | .disconnect => .ok (disconnect {})
  | _ => .error .payloadRequired

end Packet

end MqttClient
