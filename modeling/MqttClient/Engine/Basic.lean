import MqttClient.Backoff
import MqttClient.Link
import MqttClient.SubscriptionTable
import MqttClient.Timers

/-! The engine of a client: the session with all that surrounds it, namely the calls that wait, the
connection, the timers and the plan to reconnect. It takes commands one at a time. What it does to
the world around it is written down as effects, and what it needs to know of that world (the time,
callers that left, how far writes get through, a random number) is part of its state and set from
outside. -/

namespace MqttClient

/-- Tells the calls of a client apart. -/
abbrev CallId := Nat

abbrev HandlerId := Nat

inductive Call
  | publish (id : CallId) (p : Publish)
  | subscribe (id : CallId) (p : Subscribe) (handler : HandlerId)
  | unsubscribe (id : CallId) (p : Unsubscribe)
  deriving DecidableEq, Repr

namespace Call

def id : Call → CallId
  | publish id _ => id
  | subscribe id _ _ => id
  | unsubscribe id _ => id

/-- A message that is neither acknowledged nor held back. -/
def isUnacknowledged : Call → Bool
  | publish _ p => p.qos == .atMostOnce
  | _ => false

end Call

/-- Who waits for the acknowledgement of a packet identifier. -/
inductive Pending
  | publish (id : CallId)
  | subscribe (id : CallId) (paths : List String)
  | unsubscribe (id : CallId)
  /-- The subscriptions made anew on a new connection; no call waits for it. -/
  | resubscribe (paths : List String)
  deriving DecidableEq, Repr

def Pending.call? : Pending → Option CallId
  | publish id => some id
  | subscribe id _ => some id
  | unsubscribe id => some id
  | resubscribe _ => none

inductive Reply
  | connAck (p : ConnAck)
  | sent
  | published (ack : PublishAck)
  | subAck (p : SubAck)
  | unsubAck (p : UnsubAck)
  | disconnected
  deriving DecidableEq, Repr

inductive Effect
  /-- Ask for a socket to the broker; the answer carries the number of the epoch. -/
  | attempt (epoch : Nat) (host : String) (port : UInt16)
  | write (call : Option CallId) (p : Packet) (bytes : Bytes)
  | close
  | answer (call : CallId) (outcome : Except ClientError Reply)
  | deliver (handler : HandlerId) (m : Message)

inductive Command
  | connect (call : CallId) (config : Config)
  | call (c : Call)
  | disconnect (call : CallId) (reason : DisconnectReason)
  | cancel (call : CallId)
  /-- An attempt of an epoch came to an end; a socket comes with the writes it has room for. -/
  | opened (epoch : Nat) (result : Except TransportError (Option Nat))
  | incoming (epoch : Nat) (p : Packet)
  | networkDown (epoch : Nat) (e : TransportError)
  | timer (timer : Timer) (id : Nat)

structure Engine where
  now : Time := 0
  config : Option Config := none
  session : Session := { maxInflight := 100 }
  subscriptions : SubscriptionTable HandlerId := {}
  pending : Std.TreeMap UInt16 Pending := {}
  /-- Calls that wait for a free packet identifier or for a connection, the earliest first. -/
  backlog : List Call := []
  connectCall : Option CallId := none
  /-- A socket was asked for and has not come. -/
  opening : Bool := false
  link : Option Link := none
  /-- Raised whenever an attempt starts or a connection ends; what belongs to an earlier epoch is
  out of date. -/
  epoch : Nat := 0
  timers : Timers := {}
  lastTimerId : Nat := 0
  /-- The keep alive in use, which the broker may have set. -/
  keepAlive : Duration := .zero
  /-- The plan to reconnect, from the first connection to the disconnection. -/
  supervisor : Option Backoff := none
  abandoned : Std.TreeSet CallId := {}
  draw : Nat := 0
  effects : List Effect := []

namespace Engine

def emit (e : Engine) (x : Effect) : Engine := { e with effects := e.effects ++ [x] }

def takeEffects (e : Engine) : List Effect × Engine := (e.effects, { e with effects := [] })

def succeed (e : Engine) (call : CallId) (r : Reply) : Engine := e.emit (.answer call (.ok r))

def fail (e : Engine) (call : CallId) (err : ClientError) : Engine :=
  e.emit (.answer call (.error err))

def isConnected (e : Engine) : Bool := e.session.connection == .connected

/-- The caller no longer waits, and no command says so. -/
def abandon (e : Engine) (call : CallId) : Engine := { e with abandoned := e.abandoned.insert call }

def ackTimeout (e : Engine) : Duration := e.config.elim (.ofSeconds 30) Config.ackTimeout

/-- Arms a timer in place of one of the same kind. -/
def schedule (e : Engine) (timer : Timer) (delay : Duration) : Engine :=
  let id := e.lastTimerId + 1
  { e with
    lastTimerId := id
    timers := e.timers.set timer { id, deadline := e.now + delay.nanos } }

def cancelTimer (e : Engine) (timer : Timer) : Engine := { e with timers := e.timers.erase timer }

/-- The call whose request a packet carries, if it waits for an acknowledgement. -/
def requester (e : Engine) : Packet → Option CallId
  | .publish p =>
    if p.qos = .atMostOnce then none else e.pending[p.packetId]?.bind Pending.call?
  | .subscribe p => e.pending[p.packetId]?.bind Pending.call?
  | .unsubscribe p => e.pending[p.packetId]?.bind Pending.call?
  | _ => none

def put (e : Engine) (p : Packet) : Engine × Except TransportError Unit :=
  match e.link with
  | none => (e, .error .connectionClosed)
  | some link =>
    match link.send p with
    | (link, .ok bytes) =>
      ({ e with link := some link }.emit (.write (e.requester p) p bytes), .ok ())
    | (link, .error err) => ({ e with link := some link }, .error err)

def write (e : Engine) (p : Packet) : Engine × Except TransportError Unit :=
  match e.put p with
  | (e, .ok ()) => ({ e with session := { e.session with lastOutgoing := e.now } }, .ok ())
  | (e, .error err) => (e, .error err)

/-- Tells the broker why the connection ends, if that still gets through. -/
def sendDisconnect (e : Engine) (reason : DisconnectReason) : Engine :=
  (e.put (.disconnect { reason })).1

def withSession (e : Engine) (s : Session) : Engine := { e with session := s }

def teardown (e : Engine) : Engine :=
  let e := if e.link.isSome then e.emit .close else e
  { e with
    epoch := e.epoch + 1
    opening := false
    link := none
    timers := {}
    session := e.session.disconnected }

def failPending (e : Engine) (p : Pending) (err : ClientError) : Engine :=
  match p.call? with
  | some call => e.fail call err
  | none => e

def failAll (e : Engine) (err : ClientError) : Engine :=
  let e := e.pending.values.foldl (fun e p => e.failPending p err) e
  let e := e.backlog.foldl (fun e c => e.fail c.id err) e
  { e with pending := {}, backlog := [] }

def cleanSession (e : Engine) : Engine := e.withSession e.session.clean

/-- The connection, or the attempt, is gone. A first attempt is not repeated; a supervised session
waits for the next attempt; any other ends. -/
def connectionLost (e : Engine) (cause : ConnectionError) : Engine :=
  if e.session.connection = .disconnected ∧ e.link.isNone then e
  else
    let e := e.teardown
    match e.connectCall, e.supervisor with
    | some call, _ =>
      let e := { e with connectCall := none }.fail call (.ofConnection cause)
      (e.failAll .notConnected).cleanSession
    | none, some backoff =>
      let backoff := backoff.onFailed e.now
      { e with supervisor := some backoff }.schedule .reconnect (backoff.nextDelay e.draw)
    | none, none =>
      { (e.failAll (.connectionLost cause)).cleanSession with subscriptions := {} }

def writeOrLose (e : Engine) (p : Packet) : Engine :=
  match e.write p with
  | (e, .ok ()) => e
  | (e, .error err) => e.connectionLost (.transport err)

end Engine

end MqttClient
