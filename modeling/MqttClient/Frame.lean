import MqttClient.Packet.Decode

/-! Cutting a stream of bytes into frames. A frame is taken off the stream as a whole before its
body is read; as long as it is incomplete, or when its header is refused, nothing is taken. -/

namespace MqttClient

structure FixedHeader where
  /-- Number of the packet's type, and its flags. -/
  firstByte : UInt8
  lengthBytes : Nat
  bodySize : Nat
  deriving DecidableEq, Repr

namespace FixedHeader

def frameLength (h : FixedHeader) : Nat := 1 + h.lengthBytes + h.bodySize

def flags (h : FixedHeader) : UInt8 := h.firstByte &&& 0x0F

def packetType (h : FixedHeader) : Except WireError PacketType :=
  let number := h.firstByte >>> 4
  match PacketType.ofNumber? number with
  | some type => .ok type
  | none => .error (.invalidPacketType number)

def checkFlags (h : FixedHeader) (type : PacketType) : Except WireError Unit :=
  match type.reservedFlags? with
  | some flags => if h.flags = flags then .ok () else .error .incorrectPacketFormat
  | none => .ok ()

def decode : Bytes → Except WireError FixedHeader
  | firstByte :: b :: rest => do
    let (lengthBytes, bodySize) ← VarInt.decode (b :: rest)
    return { firstByte, lengthBytes, bodySize }
  | short => .error (.insufficientBytes (2 - short.length))

/-- The header of the first frame of a stream, if the frame is there as a whole. A body above the
limit is refused before it has arrived. -/
def check (stream : Bytes) (limit : Nat) : Except WireError FixedHeader := do
  let header ← decode stream
  if header.bodySize > limit then
    throw (.payloadSizeLimitExceeded header.bodySize limit)
  if stream.length < header.frameLength then
    throw (.insufficientBytes (header.frameLength - stream.length))
  return header

end FixedHeader

namespace Packet

def ofFrame (header : FixedHeader) (body : Bytes) : Except WireError Packet := do
  let type ← header.packetType
  header.checkFlags type
  if header.bodySize = 0 then withoutBody type else decodeBody type header.flags body

/-- Takes the first frame off a stream and reads its packet. What is left of the stream comes with
the packet, or with the error. -/
def read (stream : Bytes) (limit : Nat) : Except WireError Packet × Bytes :=
  match FixedHeader.check stream limit with
  | .error e => (.error e, stream)
  | .ok header =>
    let (frame, rest) := stream.splitAt header.frameLength
    (ofFrame header (frame.drop (1 + header.lengthBytes)), rest)

/-- The first packet of a stream and the length of its frame. -/
def decode (stream : Bytes) (limit : Nat) : Except WireError (Packet × Nat) := do
  let header ← FixedHeader.check stream limit
  let packet ← ofFrame header ((stream.take header.frameLength).drop (1 + header.lengthBytes))
  return (packet, header.frameLength)

def readLoop (limit : Nat) : (fuel : Nat) → (acc : List Packet) → Bytes →
    List Packet × WireError × Bytes
  | 0, acc, stream => (acc.reverse, .insufficientBytes 2, stream)
  | fuel + 1, acc, stream =>
    match read stream limit with
    | (.ok p, rest) => readLoop limit fuel (p :: acc) rest
    | (.error e, rest) => (acc.reverse, e, rest)

/-- Every packet at the start of a stream, the error that ended the reading, and what is left. A
frame takes at least two bytes, so there are fewer packets than bytes. -/
def readAll (stream : Bytes) (limit : Nat) : List Packet × WireError × Bytes :=
  readLoop limit (stream.length + 1) [] stream

end Packet

end MqttClient
