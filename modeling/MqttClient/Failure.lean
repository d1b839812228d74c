import MqttClient.Quoted
import MqttClient.Session

/-! Why a transport, a connection or a call fails, and what is said about it. -/

namespace MqttClient

inductive TransportError
  | io (cause : String)
  | malformedPacket (e : WireError)
  | encoding (e : WireError)
  /-- The other end closed the connection between two packets. -/
  | connectionClosed
  deriving DecidableEq, Repr

namespace TransportError

def brokenPipe : TransportError := io "broken pipe"

def cutShort : TransportError := io "connection closed in the middle of a packet"

def message : TransportError → String
  | io cause => s!"I/O: {cause}"
  | malformedPacket e => s!"Malformed packet: {e.message}"
  | encoding e => s!"Packet can't be encoded: {e.message}"
  | connectionClosed => "Connection closed by peer"

end TransportError

inductive ConnectionError
  | transport (e : TransportError)
  | session (e : SessionError)
  | connectionRefused (code : ConnectReason)
  | connectTimeout
  | serverDisconnect (reason : DisconnectReason)
  | pingTimeout
  | transactionTimeout (packetId : UInt16)
  deriving DecidableEq, Repr

def ConnectionError.message : ConnectionError → String
  | transport e => s!"Transport: {e.message}"
  | session e => s!"Mqtt state: {e.message}"
  | connectionRefused code => s!"Connection refused, return code: `{ReasonCode.name code}`"
  | connectTimeout => "Timeout while waiting for connack"
  | serverDisconnect reason => s!"Broker closed the session: {ReasonCode.name reason}"
  | pingTimeout => "No pingresp within the grace period"
  | transactionTimeout packetId => s!"Transaction {packetId} ran out of retransmissions"

inductive ClientError
  | connectRejected (code : ConnectReason)
  | connectTimeout
  | publishTimeout (packetId : UInt16)
  | subscribeTimeout (packetId : UInt16)
  | transactionTimeout (packetId : UInt16)
  | invalidTopic (topic : String)
  | invalidFilter (filter : String)
  | encoding (e : WireError)
  | transport (e : TransportError)
  | notConnected
  | invalidState (state : ConnectionState)
  | session (e : SessionError)
  | connectionLost (e : ConnectionError)
  | disconnected
  | engineGone
  deriving DecidableEq, Repr

namespace ClientError

def message : ClientError → String
  | connectRejected code => s!"Connection refused, return code: `{ReasonCode.name code}`"
  | connectTimeout => "Timeout while waiting for connack"
  | publishTimeout packetId => s!"Publish {packetId} wasn't acknowledged"
  | subscribeTimeout packetId => s!"Subscribe {packetId} wasn't acknowledged"
  | transactionTimeout packetId => s!"Transaction {packetId} wasn't acknowledged"
  | invalidTopic topic => s!"Invalid topic name: {Quoted.text topic}"
  | invalidFilter filter => s!"Invalid topic filter: {Quoted.text filter}"
  | encoding e => s!"Serialization error: {e.message}"
  | transport e => s!"Transport: {e.message}"
  | notConnected => "Not connected"
  | invalidState state => s!"Not allowed while {state.name}"
  | session e => s!"Mqtt state: {e.message}"
  | connectionLost e => s!"Connection lost: {e.message}"
  | disconnected => "Disconnected by the client"
  | engineGone => "Eventloop isn't running"

def ofSession : SessionError → ClientError
  | .invalidState state => invalidState state
  | e => session e

def ofConnection : ConnectionError → ClientError
  | .connectionRefused code => connectRejected code
  | .connectTimeout => connectTimeout
  | .transport e => transport e
  | e => connectionLost e

end ClientError

end MqttClient
