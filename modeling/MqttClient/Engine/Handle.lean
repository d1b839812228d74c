import MqttClient.Engine.Request

/-! What the engine does on each command. -/

namespace MqttClient.Engine

def startAttempt (e : Engine) : Engine :=
  match e.config with
  | none => e
  | some config =>
    match e.session.connecting with
    | (_, .error _) => e
    | (s, .ok ()) =>
      let e := { e.withSession s with epoch := e.epoch + 1, opening := true }
      (e.schedule .connect config.connectTimeout).emit (.attempt e.epoch config.host config.port)

def connect (e : Engine) (call : CallId) (config : Config) : Engine :=
  if e.supervisor.isSome then e.fail call (.invalidState .connecting)
  else if e.session.connection ≠ .disconnected then
    e.fail call (.invalidState e.session.connection)
  else
    { e.withSession { e.session with maxInflight := config.inflight } with
      keepAlive := config.keepAlive
      config := some config
      connectCall := some call }.startAttempt

def opened (e : Engine) (result : Except TransportError (Option Nat)) : Engine :=
  let e := { e with opening := false }
  match result, e.config with
  | .error err, _ => e.connectionLost (.transport err)
  | .ok _, none => e
  | .ok room, some config =>
    let e := { e with link := some { maxOutgoing := config.maxOutgoing, room } }
    match e.session.send e.now (.connect config.connectPacket) with
    | (s, .ok packet) => (e.withSession s).writeOrLose packet
    | (s, .error err) => (e.withSession s).connectionLost (.session err)

def agreedKeepAlive (config : Config) (p : ConnAck) : Duration :=
  match Properties.serverKeepAlive? p.properties with
  | some seconds => .ofSeconds seconds.toNat
  | none => config.keepAlive

/-- How many transactions may be open: no more than either side allows, and at least one. -/
def agreedInflight (config : Config) (p : ConnAck) : UInt16 :=
  match Properties.receiveMaximum? p.properties with
  | some most => min config.inflight (max most 1)
  | none => config.inflight

/-- Writes the packets of open transactions again; whatever follows is not done if one does not get
through. -/
def replayAll (e : Engine) (ackTimeout : Duration) : List Packet → Engine × Bool
  | [] => (e, true)
  | packet :: rest =>
    match e.write packet with
    | (e, .ok ()) => replayAll (e.schedule (.ack (packetIdOf packet)) ackTimeout) ackTimeout rest
    | (e, .error err) => (e.connectionLost (.transport err), false)

def resubscribe (e : Engine) : Engine :=
  if e.subscriptions.isEmpty then e
  else
    let filters := e.subscriptions.filters
    match e.session.send e.now (.subscribe { filters }) with
    | (s, .ok packet) =>
      (e.withSession s).transmit (packetIdOf packet) packet (.resubscribe (filters.map (·.path)))
    | (s, .error _) => e.withSession s

/-- A connection after the first takes up what was open. -/
def resume (e : Engine) (ackTimeout : Duration) : Engine :=
  let (s, packets) := e.session.replay e.now
  match (e.withSession s).replayAll ackTimeout packets with
  | (e, true) => e.resubscribe.drainBacklog
  | (e, false) => e

/-- A connection was established; with `options`, the session is supervised from now on. -/
def supervise (e : Engine) (options : Option ReconnectOptions) (stableAfter : Duration) : Engine :=
  let supervisor := options.elim e.supervisor fun options => some { stableAfter, options }
  { e with supervisor := supervisor.map fun b => b.onEstablished e.now }

def connected (e : Engine) (p : ConnAck) : Engine :=
  let e := e.cancelTimer .connect
  match e.config with
  | none => e
  | some config =>
    let keepAlive := agreedKeepAlive config p
    let ackTimeout := config.ackTimeout
    let stableAfter := if keepAlive.isZero then ackTimeout else keepAlive
    let e := e.withSession { e.session with maxInflight := agreedInflight config p }
    let e := { e with keepAlive }
    let e := if keepAlive.isZero then e else e.schedule .keepAlive keepAlive
    match e.connectCall with
    | some call =>
      let e := { e with connectCall := none }.supervise config.reconnect stableAfter
      e.succeed call (.connAck p)
    | none => (e.supervise none stableAfter).resume ackTimeout

def published (e : Engine) (packetId : UInt16) (ack : PublishAck) : Engine :=
  let e := e.cancelTimer (.ack packetId)
  let pending := e.pending[packetId]?
  let e := e.erasePending packetId
  let e := match pending with
    | some (.publish id) => e.succeed id (.published ack)
    | some other => e.failPending other (.session .wrongPacket)
    | none => e
  e.drainBacklog

def refusedPaths (paths : List String) (codes : List SubscribeReason) : List String :=
  ((paths.zip codes).filter fun (_, code) => !code.isSuccess).map (·.1)

/-- Refused subscriptions leave the table. -/
def subscribed (e : Engine) (p : SubAck) : Engine :=
  let e := e.cancelTimer (.ack p.packetId)
  let pending := e.pending[p.packetId]?
  let e := e.erasePending p.packetId
  let e := match pending with
    | some (.subscribe id paths) =>
      (e.unsubscribeAll (refusedPaths paths p.returnCodes)).succeed id (.subAck p)
    | some (.resubscribe paths) => e.unsubscribeAll (refusedPaths paths p.returnCodes)
    | some other => e.failPending other (.session .wrongPacket)
    | none => e
  e.drainBacklog

def unsubscribed (e : Engine) (p : UnsubAck) : Engine :=
  let e := e.cancelTimer (.ack p.packetId)
  let pending := e.pending[p.packetId]?
  let e := e.erasePending p.packetId
  let e := match pending with
    | some (.unsubscribe id) => e.succeed id (.unsubAck p)
    | some other => e.failPending other (.session .wrongPacket)
    | none => e
  e.drainBacklog

def dispatch (e : Engine) (p : Publish) : Engine :=
  (e.subscriptions.handlersOf p.topic).foldl (fun e h => e.emit (.deliver h (.ofPublish p))) e

def handleEvent (e : Engine) : Event → Engine
  | .connected p => e.connected p
  | .rejected p => e.connectionLost (.connectionRefused p.code)
  | .published packetId ack => e.published packetId ack
  | .subscribed p => e.subscribed p
  | .unsubscribed p => e.unsubscribed p
  | .message p => e.dispatch p
  | .pingResp => e.cancelTimer .pingResp
  | .disconnected p => e.connectionLost (.serverDisconnect p.reason)

def handleEvents (e : Engine) : Engine :=
  let (events, s) := e.session.takeEvents
  events.foldl handleEvent (e.withSession s)

/-- Messages are handed on before they are acknowledged. -/
def incoming (e : Engine) (packet : Packet) : Engine :=
  match e.session.receive e.now packet with
  | (s, .error err) =>
    ((e.withSession s).sendDisconnect .protocolError).connectionLost (.session err)
  | (s, .ok reply) =>
    let e := (e.withSession s).handleEvents
    match reply with
    | none => e
    | some packet => if e.link.isNone then e else e.writeOrLose packet

def networkDown (e : Engine) (err : TransportError) : Engine :=
  let e := match err with
    | .malformedPacket (.payloadSizeLimitExceeded _ _) => e.sendDisconnect .packetTooLarge
    | .malformedPacket _ => e.sendDisconnect .malformedPacket
    | _ => e
  e.connectionLost (.transport err)

/-- The caller of a pending call left without a word. -/
def isAbandoned (e : Engine) (p : Pending) : Bool := p.call?.any e.abandoned.contains

def expire (e : Engine) (packetId : UInt16) (policy : TimeoutPolicy) : Engine :=
  let pending := e.pending[packetId]?
  let e := e.erasePending packetId
  let e := match pending with
    | some (.publish id) => e.fail id (.publishTimeout packetId)
    | some (.subscribe id paths) => (e.unsubscribeAll paths).fail id (.subscribeTimeout packetId)
    | some other => e.failPending other (.transactionTimeout packetId)
    | none => e
  match policy with
  | .drop => e.drainBacklog
  | .reset => e.connectionLost (.transactionTimeout packetId)

def ackTimedOut (e : Engine) (packetId : UInt16) : Engine :=
  if e.pending[packetId]?.any e.isAbandoned then
    ((e.erasePending packetId).forget packetId).drainBacklog
  else match e.config with
    | none => e
    | some config =>
      match e.session.retransmit e.now packetId config.maxRetries with
      | (s, .resend packet) =>
        match (e.withSession s).write packet with
        | (e, .ok ()) => e.schedule (.ack packetId) e.ackTimeout
        | (e, .error err) => e.connectionLost (.transport err)
      | (s, .expired _) => (e.withSession s).expire packetId config.timeoutPolicy
      | (s, .unknown) => e.withSession s

/-- Pings the broker unless something was written in the meantime. -/
def keepAliveDue (e : Engine) : Engine :=
  let elapsed := Duration.between e.session.lastOutgoing e.now
  if elapsed < e.keepAlive then e.schedule .keepAlive (e.keepAlive.sub elapsed)
  else match e.session.send e.now .pingReq with
    | (s, .error .awaitPingResp) => (e.withSession s).connectionLost .pingTimeout
    | (s, .error err) => (e.withSession s).connectionLost (.session err)
    | (s, .ok packet) =>
      match (e.withSession s).write packet with
      | (e, .error err) => e.connectionLost (.transport err)
      | (e, .ok ()) =>
        let grace := e.config.elim e.keepAlive Config.pingGrace
        (e.schedule .pingResp grace).schedule .keepAlive e.keepAlive

/-- A timer that was cancelled or armed anew since it ran out does nothing. -/
def timerFired (e : Engine) (timer : Timer) (id : Nat) : Engine :=
  if (e.timers.get? timer).any (·.id == id) then
    let e := e.cancelTimer timer
    match timer with
    | .connect => e.connectionLost .connectTimeout
    | .ack packetId => e.ackTimedOut packetId
    | .keepAlive => e.keepAliveDue
    | .pingResp => e.connectionLost .pingTimeout
    | .reconnect => e.startAttempt
  else e

/-- Leaves the broker for good; every call that waits fails. -/
def disconnect (e : Engine) (reason : DisconnectReason) : Engine :=
  let e := { e with supervisor := none }
  let e := match e.isConnected, e.session.send e.now (.disconnect { reason }) with
    | true, (s, .ok packet) => ((e.withSession s).write packet).1
    | _, _ => e
  let e := e.teardown
  let e := match e.connectCall with
    | some call => { e with connectCall := none }.fail call .disconnected
    | none => e
  { (e.failAll .disconnected).cleanSession with subscriptions := {} }

/-- No client is left. -/
def stop (e : Engine) : Engine :=
  let e := { e with supervisor := none }
  let e := if e.isConnected then e.sendDisconnect .normalDisconnection else e
  (e.teardown.failAll .engineGone).cleanSession

def handle (e : Engine) : Command → Engine
  | .connect call config => e.connect call config
  | .call c => e.request c false
  | .disconnect call reason => (e.disconnect reason).succeed call .disconnected
  | .cancel call => e.cancelCall call
  | .opened epoch result => if epoch = e.epoch then e.opened result else e
  | .incoming epoch packet => if epoch = e.epoch then e.incoming packet else e
  | .networkDown epoch err => if epoch = e.epoch then e.networkDown err else e
  | .timer timer id => e.timerFired timer id

end MqttClient.Engine
