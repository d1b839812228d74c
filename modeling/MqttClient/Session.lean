import MqttClient.Duration
import MqttClient.Packet
import Std.Data.TreeMap
import Std.Data.TreeSet

/-! What a session remembers between packets: how far the connection has come, which of the client's
requests wait for an acknowledgement, and which exactly-once messages of the broker are half
received. An operation that fails leaves the session as it was, apart from the time of the last
packet received. -/

namespace MqttClient

inductive ConnectionState
  | disconnected
  | connecting
  | connected
  | disconnecting
  deriving DecidableEq, Repr

def ConnectionState.name : ConnectionState → String
  | disconnected => "Disconnected"
  | connecting => "Connecting"
  | connected => "Connected"
  | disconnecting => "Disconnecting"

inductive SessionError
  | invalidState (state : ConnectionState)
  | awaitPingResp
  | wrongPacket
  | packetIdsExhausted
  deriving DecidableEq, Repr

def SessionError.message : SessionError → String
  | invalidState state => s!"Operation isn't allowed while {state.name}"
  | awaitPingResp => "Last pingreq isn't acked"
  | wrongPacket => "Received a wrong packet while waiting for another packet"
  | packetIdsExhausted => "Every packet identifier is in use"

inductive Request
  | connect (p : Connect)
  | publish (p : Publish)
  | subscribe (p : Subscribe)
  | unsubscribe (p : Unsubscribe)
  | pingReq
  | disconnect (p : Disconnect)
  deriving DecidableEq, Repr

inductive Phase
  /-- A message waits for its first acknowledgement. -/
  | sent
  /-- An exactly-once message was released and waits for its last acknowledgement. -/
  | released
  | subscribing
  | unsubscribing
  deriving DecidableEq, Repr

structure Transaction where
  packetId : UInt16
  /-- The request as it was first sent. -/
  packet : Packet
  phase : Phase
  retries : Nat := 0
  lastSent : Time
  /-- Transactions are replayed in the order of this number. -/
  order : Nat
  deriving DecidableEq, Repr

namespace Transaction

def isPublish (t : Transaction) (qos : QoS) : Bool :=
  match t.packet with
  | .publish p => p.qos == qos
  | _ => false

/-- A message or a release is sent again while the connection lives, a subscription is not. -/
def isRetried (t : Transaction) : Bool := t.phase == .sent || t.phase == .released

def resend (t : Transaction) : Packet :=
  match t.packet, t.phase with
  | .publish p, .sent => .publish { p with dup := true }
  | _, .released => .pubRel { packetId := t.packetId, reason := .success }
  | packet, _ => packet

end Transaction

inductive PublishAck
  | pubAck (a : Ack PublishReason)
  /-- The broker refuses an exactly-once message. -/
  | pubRec (a : Ack PublishReason)
  | pubComp (a : Ack ReleaseReason)
  deriving DecidableEq, Repr

inductive Event
  | connected (p : ConnAck)
  | rejected (p : ConnAck)
  | published (packetId : UInt16) (ack : PublishAck)
  | subscribed (p : SubAck)
  | unsubscribed (p : UnsubAck)
  | message (p : Publish)
  | pingResp
  | disconnected (p : Disconnect)
  deriving DecidableEq, Repr

inductive Retransmission
  | resend (p : Packet)
  /-- The retries are used up and the transaction is gone. -/
  | expired (t : Transaction)
  | unknown
  deriving DecidableEq, Repr

structure Session where
  connection : ConnectionState := .disconnected
  awaitPingResp : Bool := false
  lastIncoming : Time := 0
  lastOutgoing : Time := 0
  lastPacketId : UInt16 := 0
  maxInflight : UInt16
  outgoing : Std.TreeMap UInt16 Transaction := {}
  /-- Exactly-once messages of the broker that were acknowledged and not yet released. -/
  received : Std.TreeSet UInt16 := {}
  lastOrder : Nat := 0
  /-- What happened and has not been taken notice of, the earliest first. -/
  events : List Event := []

namespace Session

def inflight (s : Session) : Nat := s.outgoing.size

def isFull (s : Session) : Bool := s.maxInflight.toNat ≤ s.inflight

def transaction? (s : Session) (packetId : UInt16) : Option Transaction := s.outgoing[packetId]?

/-- Open transactions in the order in which they were accepted. -/
def transactions (s : Session) : List Transaction :=
  s.outgoing.values.mergeSort fun a b => a.order ≤ b.order

/-- Ends a transaction without waiting for its acknowledgement. -/
def forget (s : Session) (packetId : UInt16) : Session :=
  { s with outgoing := s.outgoing.erase packetId }

/-- Drops every transaction, the half received messages and the open ping. -/
def clean (s : Session) : Session :=
  { s with outgoing := {}, received := {}, awaitPingResp := false }

def takeEvents (s : Session) : List Event × Session := (s.events, { s with events := [] })

def push (s : Session) (e : Event) : Session := { s with events := s.events ++ [e] }

def connecting (s : Session) : Session × Except SessionError Unit :=
  if s.connection = .disconnected then ({ s with connection := .connecting }, .ok ())
  else (s, .error (.invalidState s.connection))

def disconnecting (s : Session) : Session := { s with connection := .disconnecting }

/-- The connection is gone. Open transactions stay for the next one. -/
def disconnected (s : Session) : Session :=
  { s with connection := .disconnected, awaitPingResp := false }

/-- The identifier after another; zero is left out. -/
def succId (packetId : UInt16) : UInt16 := max (packetId + 1) 1

/-- The first free identifier after `last`, among the next `fuel`. -/
def firstFree (s : Session) : (fuel : Nat) → (last : UInt16) → Option UInt16
  | 0, _ => none
  | fuel + 1, last =>
    let next := succId last
    if s.outgoing.contains next then firstFree s fuel next else some next

def maxPacketIds : Nat := 65535

def nextPacketId (s : Session) : Except SessionError UInt16 :=
  if maxPacketIds ≤ s.inflight then .error .packetIdsExhausted
  else match s.firstFree maxPacketIds s.lastPacketId with
    | some packetId => .ok packetId
    | none => .error .packetIdsExhausted

def track (s : Session) (now : Time) (packetId : UInt16) (packet : Packet) (phase : Phase) :
    Session :=
  let order := s.lastOrder + 1
  { s with
    lastPacketId := packetId
    lastOrder := order
    outgoing := s.outgoing.insert packetId { packetId, packet, phase, lastSent := now, order } }

def start (s : Session) (now : Time) (phase : Phase) (packet : UInt16 → Packet) :
    Session × Except SessionError Packet :=
  if s.connection = .connected then
    match s.nextPacketId with
    | .ok packetId => (s.track now packetId (packet packetId) phase, .ok (packet packetId))
    | .error e => (s, .error e)
  else (s, .error (.invalidState s.connection))

def sendPublish (s : Session) (now : Time) (p : Publish) : Session × Except SessionError Packet :=
  if p.qos = .atMostOnce then
    if s.connection = .connected then (s, .ok (.publish { p with packetId := 0 }))
    else (s, .error (.invalidState s.connection))
  else s.start now .sent fun packetId => .publish { p with packetId, dup := false }

def sendPing (s : Session) : Session × Except SessionError Packet :=
  if s.connection = .connected then
    if s.awaitPingResp then (s, .error .awaitPingResp)
    else ({ s with awaitPingResp := true }, .ok .pingReq)
  else (s, .error (.invalidState s.connection))

def send (s : Session) (now : Time) : Request → Session × Except SessionError Packet
  | .connect p =>
    if s.connection = .connecting then (s, .ok (.connect p))
    else (s, .error (.invalidState s.connection))
  | .publish p => s.sendPublish now p
  | .subscribe p => s.start now .subscribing fun packetId => .subscribe { p with packetId }
  | .unsubscribe p => s.start now .unsubscribing fun packetId => .unsubscribe { p with packetId }
  | .pingReq => s.sendPing
  | .disconnect p => (s.disconnecting, .ok (.disconnect p))

def receiveConnAck (s : Session) (p : ConnAck) : Session × Except SessionError (Option Packet) :=
  if s.connection = .connecting then
    if p.code = .success then
      (({ s with connection := .connected } : Session).push (.connected p), .ok none)
    else (({ s with connection := .disconnected } : Session).push (.rejected p), .ok none)
  else (s, .error .wrongPacket)

/-- A message is acknowledged each time it comes, but an exactly-once message that comes again
before it was released is not handed on again. -/
def receivePublish (s : Session) (p : Publish) : Session × Except SessionError (Option Packet) :=
  if s.connection = .connecting then (s, .error .wrongPacket)
  else match p.qos with
    | .atMostOnce => (s.push (.message p), .ok none)
    | .atLeastOnce =>
      (s.push (.message p), .ok (some (.pubAck { packetId := p.packetId, reason := .success })))
    | .exactlyOnce =>
      let reply : Packet := .pubRec { packetId := p.packetId, reason := .success }
      if s.received.contains p.packetId then (s, .ok (some reply))
      else (({ s with received := s.received.insert p.packetId } : Session).push (.message p),
        .ok (some reply))

/-- Ends the transaction of an acknowledgement, if it waits for one of that kind. -/
def complete (s : Session) (packetId : UInt16) (fits : Transaction → Bool) (e : Event) :
    Session :=
  match s.transaction? packetId with
  | some t => if fits t then (s.forget packetId).push e else s
  | none => s

def receivePubAck (s : Session) (a : Ack PublishReason) : Session :=
  s.complete a.packetId (fun t => t.phase == .sent && t.isPublish .atLeastOnce)
    (.published a.packetId (.pubAck a))

/-- A release answers every such acknowledgement that is no refusal. -/
def receivePubRec (s : Session) (now : Time) (a : Ack PublishReason) : Session × Option Packet :=
  let unknown : Packet := .pubRel { packetId := a.packetId, reason := .packetIdentifierNotFound }
  match s.transaction? a.packetId with
  | some t =>
    if t.isPublish .exactlyOnce then
      if a.reason.isSuccess then
        let released := { t with phase := .released, retries := 0, lastSent := now }
        ({ s with outgoing := s.outgoing.insert a.packetId released },
          some (.pubRel { packetId := a.packetId, reason := .success }))
      else ((s.forget a.packetId).push (.published a.packetId (.pubRec a)), none)
    else (s, some unknown)
  | none => (s, some unknown)

def receivePubRel (s : Session) (a : Ack ReleaseReason) : Session × Packet :=
  if s.received.contains a.packetId then
    ({ s with received := s.received.erase a.packetId },
      .pubComp { packetId := a.packetId, reason := .success })
  else (s, .pubComp { packetId := a.packetId, reason := .packetIdentifierNotFound })

def receivePubComp (s : Session) (a : Ack ReleaseReason) : Session :=
  s.complete a.packetId (·.phase == .released) (.published a.packetId (.pubComp a))

def receiveSubAck (s : Session) (p : SubAck) : Session :=
  s.complete p.packetId (·.phase == .subscribing) (.subscribed p)

def receiveUnsubAck (s : Session) (p : UnsubAck) : Session :=
  s.complete p.packetId (·.phase == .unsubscribing) (.unsubscribed p)

def receivePingResp (s : Session) : Session :=
  ({ s with awaitPingResp := false } : Session).push .pingResp

def receiveDisconnect (s : Session) (p : Disconnect) : Session :=
  s.disconnecting.push (.disconnected p)

def receive (s : Session) (now : Time) (packet : Packet) :
    Session × Except SessionError (Option Packet) :=
  let s := { s with lastIncoming := now }
  match packet with
  | .connAck p => s.receiveConnAck p
  | .publish p => s.receivePublish p
  | .pubAck a => (s.receivePubAck a, .ok none)
  | .pubRec a => let (s, reply) := s.receivePubRec now a; (s, .ok reply)
  | .pubRel a => let (s, reply) := s.receivePubRel a; (s, .ok (some reply))
  | .pubComp a => (s.receivePubComp a, .ok none)
  | .subAck p => (s.receiveSubAck p, .ok none)
  | .unsubAck p => (s.receiveUnsubAck p, .ok none)
  | .pingResp => (s.receivePingResp, .ok none)
  | .disconnect p => (s.receiveDisconnect p, .ok none)
  | _ => (s, .error .wrongPacket)

/-- Takes up every open transaction on a new connection, in the order in which they were
accepted. -/
def replay (s : Session) (now : Time) : Session × List Packet :=
  ({ s with outgoing := s.outgoing.map fun _ t => { t with retries := 0, lastSent := now } },
    s.transactions.map Transaction.resend)

/-- Handles an acknowledgement that is late: the packet is sent again until the retries are used
up. -/
def retransmit (s : Session) (now : Time) (packetId maxRetries : UInt16) :
    Session × Retransmission :=
  match s.transaction? packetId with
  | some t =>
    if t.isRetried && t.retries < maxRetries.toNat then
      let again := { t with retries := t.retries + 1, lastSent := now }
      ({ s with outgoing := s.outgoing.insert packetId again }, .resend again.resend)
    else (s.forget packetId, .expired t)
  | none => (s, .unknown)

end Session

end MqttClient
