import MqttClient.Engine.Basic

/-! Calls on their way to the broker: each is sent, held back until there is room, or refused. -/

namespace MqttClient.Engine

def unsubscribeAll (e : Engine) (paths : List String) : Engine :=
  { e with subscriptions := e.subscriptions.eraseAll paths }

def subscribeAll (e : Engine) (filters : List Filter) (handler : HandlerId) : Engine :=
  { e with subscriptions := filters.foldl (·.insert · handler) e.subscriptions }

def erasePending (e : Engine) (packetId : UInt16) : Engine :=
  { e with pending := e.pending.erase packetId }

def forget (e : Engine) (packetId : UInt16) : Engine := e.withSession (e.session.forget packetId)

/-- A packet that cannot be written ends its transaction, and a subscription leaves the table. -/
def dropPending (e : Engine) (packetId : UInt16) (pending : Pending) (err : ClientError) : Engine :=
  let e := (e.forget packetId).erasePending packetId
  let e := match pending with
    | .subscribe _ paths => e.unsubscribeAll paths
    | _ => e
  e.failPending pending err

def transmit (e : Engine) (packetId : UInt16) (packet : Packet) (pending : Pending) : Engine :=
  match { e with pending := e.pending.insert packetId pending }.write packet with
  | (e, .ok ()) => e.schedule (.ack packetId) e.ackTimeout
  | (e, .error (.encoding err)) => e.dropPending packetId pending (.encoding err)
  | (e, .error err) => e.connectionLost (.transport err)

def packetIdOf : Packet → UInt16
  | .publish p => p.packetId
  | .subscribe p => p.packetId
  | .unsubscribe p => p.packetId
  | .pubRel a => a.packetId
  | _ => 0

/-- A message without acknowledgement is done with once it is written. -/
def sendUnacknowledged (e : Engine) (call : CallId) (packet : Packet) : Engine :=
  match e.write packet with
  | (e, .ok ()) => e.succeed call .sent
  | (e, .error (.encoding err)) => e.fail call (.encoding err)
  | (e, .error err) => (e.fail call .notConnected).connectionLost (.transport err)

/-- Sends a call. A subscription is in the table before its acknowledgement, since messages may come
at once; an unsubscription takes effect before it is sent. -/
def sendCall (e : Engine) : Call → Engine
  | .publish id p =>
    match e.session.send e.now (.publish p) with
    | (s, .ok packet) =>
      if p.qos = .atMostOnce then (e.withSession s).sendUnacknowledged id packet
      else (e.withSession s).transmit (packetIdOf packet) packet (.publish id)
    | (s, .error err) => (e.withSession s).fail id (.ofSession err)
  | .subscribe id p handler =>
    match e.session.send e.now (.subscribe p) with
    | (s, .ok packet) =>
      ((e.withSession s).subscribeAll p.filters handler).transmit (packetIdOf packet) packet
        (.subscribe id (p.filters.map (·.path)))
    | (s, .error err) => (e.withSession s).fail id (.ofSession err)
  | .unsubscribe id p =>
    let e := e.unsubscribeAll p.filters
    match e.session.send e.now (.unsubscribe p) with
    | (s, .ok packet) => (e.withSession s).transmit (packetIdOf packet) packet (.unsubscribe id)
    | (s, .error err) => (e.withSession s).fail id (.ofSession err)

/-- Sends a call or holds it back. One that is `queued` comes from the front of the backlog and does
not wait behind it. Messages without acknowledgement are never held back. -/
def request (e : Engine) (c : Call) (queued : Bool) : Engine :=
  if e.isConnected then
    if !c.isUnacknowledged && (e.session.isFull || (!queued && !e.backlog.isEmpty)) then
      { e with backlog := e.backlog ++ [c] }
    else e.sendCall c
  else if e.supervisor.isSome && !c.isUnacknowledged then { e with backlog := e.backlog ++ [c] }
  else e.fail c.id .notConnected

def drainLoop : (fuel : Nat) → Engine → Engine
  | 0, e => e
  | fuel + 1, e =>
    if e.isConnected && !e.session.isFull then
      match e.backlog with
      | [] => e
      | c :: rest => drainLoop fuel ({ e with backlog := rest }.request c true)
    else e

def drainBacklog (e : Engine) : Engine := drainLoop e.backlog.length e

/-- The caller of a request left: it is forgotten, wherever it is. -/
def cancelCall (e : Engine) (call : CallId) : Engine :=
  match e.pending.toList.find? fun (_, p) => p.call? == some call with
  | some (packetId, _) =>
    (((e.erasePending packetId).forget packetId).cancelTimer (.ack packetId)).drainBacklog
  | none => { e with backlog := e.backlog.filter (·.id != call) }

end MqttClient.Engine
