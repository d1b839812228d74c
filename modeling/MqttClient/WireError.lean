/-! Causes for which bytes are refused as a packet, or a packet is refused as bytes. -/

namespace MqttClient

inductive WireError
  | invalidConnectReturnCode (code : UInt8)
  | invalidReason (code : UInt8)
  | invalidProtocol
  | invalidProtocolLevel (level : UInt8)
  | incorrectPacketFormat
  | invalidPacketType (number : UInt8)
  | invalidRetainForwardRule (rule : UInt8)
  | invalidQoS (level : UInt8)
  | invalidSubscribeReasonCode (code : UInt8)
  | packetIdZero
  | packetIdOnQoS0 (packetId : UInt16)
  | emptySubscription
  | payloadTooLong
  | payloadSizeLimitExceeded (size limit : Nat)
  | outgoingPacketTooLarge (size limit : Nat)
  | payloadRequired
  | stringTooLong (length : Nat)
  | notUtf8
  | boundaryCrossed (length : Nat)
  | malformedPacket
  | malformedRemainingLength
  | invalidPropertyType (code : UInt8)
  /-- More bytes are needed before the frame can be told; at least `missing` of them. -/
  | insufficientBytes (missing : Nat)
  deriving DecidableEq, Repr

namespace WireError

def message : WireError → String
  | invalidConnectReturnCode code =>
    s!"Invalid return code received as response for connect = {code}"
  | invalidReason code => s!"Invalid reason = {code}"
  | invalidProtocol => "Invalid protocol used"
  | invalidProtocolLevel level => s!"Invalid protocol level = {level}"
  | incorrectPacketFormat => "Invalid packet format"
  | invalidPacketType number => s!"Invalid packet type = {number}"
  | invalidRetainForwardRule rule => s!"Invalid retain forward rule = {rule}"
  | invalidQoS level => s!"Invalid QoS level = {level}"
  | invalidSubscribeReasonCode code => s!"Invalid subscribe reason code = {code}"
  | packetIdZero => "Packet has id Zero"
  | packetIdOnQoS0 packetId => s!"QoS 0 publish can't carry packet id {packetId}"
  | emptySubscription => "Empty Subscription"
  | payloadTooLong => "Payload is too long"
  | payloadSizeLimitExceeded size limit =>
    s!"Max Payload size of {limit} has been exceeded by packet of {size} bytes"
  | outgoingPacketTooLarge size limit => s!"Cannot send packet of size {size}, limit is {limit}"
  | payloadRequired => "Payload is required"
  | stringTooLong length => s!"Length prefixed field of {length} bytes doesn't fit in 2 bytes"
  | notUtf8 => "String is not valid utf-8"
  | boundaryCrossed length => s!"Promised boundary crossed, contains {length} bytes"
  | malformedPacket => "Packet is malformed"
  | malformedRemainingLength => "Remaining length is malformed"
  | invalidPropertyType code => s!"Invalid property type = {code}"
  | insufficientBytes missing =>
    s!"Insufficient number of bytes to frame packet, {missing} more bytes required"

end WireError

end MqttClient
