import MqttClient.Failure
import MqttClient.Frame

/-! The two ends of a stream of packets: one cuts what arrives into packets, the other writes
packets as a whole or not at all. -/

namespace MqttClient

/-- The reading end. What is left of a packet that has not arrived as a whole stays in the
buffer. -/
structure FrameReader where
  limit : Nat
  buffer : Bytes := []
  /-- An error is final. -/
  failed : Bool := false
  deriving DecidableEq, Repr

namespace FrameReader

/-- Takes bytes in; gives the packets that are complete by now, and the error behind them if the
bytes are no packet. -/
def receive (r : FrameReader) (bytes : Bytes) :
    FrameReader × List Packet × Option TransportError :=
  if r.failed then (r, [], none)
  else
    let (packets, stopped, buffer) := Packet.readAll (r.buffer ++ bytes) r.limit
    match stopped with
    | .insufficientBytes _ => ({ r with buffer }, packets, none)
    | e => ({ r with buffer, failed := true }, packets, some (.malformedPacket e))

def endError (r : FrameReader) : TransportError :=
  if r.buffer.isEmpty then .connectionClosed else .cutShort

def finish (r : FrameReader) : FrameReader × Option TransportError :=
  if r.failed then (r, none) else ({ r with failed := true }, some r.endError)

end FrameReader

structure Link where
  maxOutgoing : Nat
  /-- How many more packets get through before the other end is found gone, if it is going. -/
  room : Option Nat := none
  deriving DecidableEq, Repr

namespace Link

def pass (l : Link) : Option Link :=
  match l.room with
  | none => some l
  | some 0 => none
  | some (n + 1) => some { l with room := some n }

def breakOff (l : Link) : Link := { l with room := some 0 }

end Link

structure Writer where
  link : Link
  buffer : Bytes := []
  deriving DecidableEq, Repr

namespace Writer

def clear (w : Writer) : Writer := { w with buffer := [] }

/-- Writes a packet, or nothing of it. The answer is what went out. -/
def send (w : Writer) (p : Packet) : Writer × Except TransportError Bytes :=
  let w := w.clear
  let (size, buffer) := p.write w.buffer
  let w := { w with buffer }
  match size with
  | .error e => (w, .error (.encoding e))
  | .ok size =>
    if w.link.maxOutgoing < size then
      (w.clear, .error (.encoding (.outgoingPacketTooLarge size w.link.maxOutgoing)))
    else match w.link.pass with
      | none => (w, .error .brokenPipe)
      | some link => ({ w with link }.clear, .ok w.buffer)

end Writer

/-- Writes a packet through a buffer of its own. What a buffer held before makes no difference. -/
def Link.send (l : Link) (p : Packet) : Link × Except TransportError Bytes :=
  let (w, answer) := { link := l : Writer }.send p
  (w.link, answer)

/-- Both ends on our side of a connection, and whether the peer is still there. -/
structure Connection where
  reader : FrameReader
  writer : Option Writer
  peerPresent : Bool := true
  deriving DecidableEq, Repr

namespace Connection

inductive Action
  | feed (bytes : Bytes)
  | hangUp
  | send (p : Packet)
  | close
  deriving DecidableEq, Repr

structure Outcome where
  packets : List Packet := []
  error : Option TransportError := none
  sent : Option (Except TransportError Unit) := none
  /-- What the peer receives. -/
  wire : Bytes := []

def ofLimits (maxIncoming maxOutgoing : Nat) : Connection :=
  { reader := { limit := maxIncoming }, writer := some { link := { maxOutgoing } } }

/-- The peer sees the end of our stream. -/
def isClosed (c : Connection) : Bool := c.writer.isNone && c.peerPresent

def send (c : Connection) (p : Packet) : Connection × Outcome :=
  match c.writer with
  | none => (c, {})
  | some writer =>
    let (writer, result) := writer.send p
    ({ c with writer := some writer },
      { sent := some (result.map fun _ => ()), wire := result.toOption.getD [] })

def step (c : Connection) : Action → Connection × Outcome
  | .feed bytes =>
    if c.peerPresent then
      let (reader, packets, error) := c.reader.receive bytes
      ({ c with reader }, { packets, error })
    else (c, {})
  | .hangUp =>
    let (reader, error) := c.reader.finish
    let writer := c.writer.map fun w => { w with link := w.link.breakOff }
    ({ reader, writer, peerPresent := false }, { error })
  | .send p => c.send p
  | .close => ({ c with writer := none }, {})

end Connection

end MqttClient
