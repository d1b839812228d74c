import MqttClient.Client
import MqttClient.Engine.Handle

/-! An engine in a world without sockets and without chance: a connector that answers as it is told,
a broker that writes what it is told, and a clock that moves only when it is told. At each instant
the engine first takes the commands that wait for it, then whatever has become due by itself:
timers, an attempt that reaches the connector, packets that arrived; and so on until nothing is left
to do. -/

namespace MqttClient

inductive Behaviour
  | accept
  | refuse
  | closed
  | hang
  /-- A connection whose other end is gone. -/
  | dead
  deriving DecidableEq, Repr

inductive Operation
  | connect (config : Config)
  | publish (d : Client.Draft)
  | subscribe (filters : List Filter)
  | unsubscribe (filters : List String)
  | disconnect (reason : DisconnectReason)

inductive Action
  | operation (o : Operation)
  /-- The caller of an operation stops waiting; `lost` if there is no room for the command that says
  so. -/
  | cancel (call : CallId) (lost : Bool)
  /-- The broker writes on a connection, by default on the newest. -/
  | broker (conn : Option Nat) (bytes : Bytes)
  | brokerClose (conn : Option Nat)
  | connector (next : List Behaviour)
  | advance (d : Duration)
  /-- The client is dropped; the engine goes on while calls wait. -/
  | dropClient
  | kill

inductive NetReport
  | packet (p : Packet)
  | undecodable (e : WireError)
  | closed

structure Report where
  net : List (Time × Nat × NetReport) := []
  answers : List (CallId × Time × Except ClientError Reply) := []
  messages : List (HandlerId × Time × Message) := []
  attempts : List (Time × String × UInt16) := []

structure Peer where
  epoch : Nat
  reader : FrameReader
  /-- What the broker wrote and the engine has not read. -/
  unread : Bytes := []
  brokerGone : Bool := false
  engineGone : Bool := false

structure Waiting where
  call : CallId
  cancellable : Bool

def Command.call? : Command → Option CallId
  | .connect id _ => some id
  | .call c => some c.id
  | .disconnect id _ => some id
  | _ => none

inductive Presence
  | running (state : ConnectionState)
  | killed
  | unobserved

structure Simulation where
  engine : Engine := {}
  running : Bool := true
  clientHeld : Bool := true
  /-- How many commands the queue of the engine takes; callers beyond that stand in line. -/
  capacity : Nat := 10
  queue : List Command := []
  behaviours : List Behaviour := []
  attempts : List (Nat × String × UInt16) := []
  peers : Array Peer := #[]
  waiting : List Waiting := []
  nextCall : CallId := 0
  report : Report := {}

namespace Simulation

def presence (s : Simulation) : Presence :=
  if !s.clientHeld then .unobserved
  else if s.running then .running s.engine.session.connection
  else .killed

def post (s : Simulation) (c : Command) : Simulation := { s with queue := s.queue ++ [c] }

def reportNet (s : Simulation) (conn : Nat) (r : NetReport) : Simulation :=
  { s with report := { s.report with net := s.report.net ++ [(s.engine.now, conn, r)] } }

/-- An answer counts only while its caller waits. -/
def answer (s : Simulation) (call : CallId) (outcome : Except ClientError Reply) : Simulation :=
  if s.waiting.any (·.call == call) then
    { s with
      waiting := s.waiting.filter (·.call != call)
      report := { s.report with answers := s.report.answers ++ [(call, s.engine.now, outcome)] } }
  else s

def updatePeer (s : Simulation) (conn : Nat) (f : Peer → Peer) : Simulation :=
  { s with peers := s.peers.modify conn f }

def peerOf? (s : Simulation) (epoch : Nat) : Option Nat := s.peers.findIdx? (·.epoch == epoch)

def NetReport.ofFrame (bytes : Bytes) : NetReport :=
  match (Packet.read bytes bytes.length).1 with
  | .ok p => .packet p
  | .error e => .undecodable e

def brokerSees (s : Simulation) (epoch : Nat) (r : NetReport) : Simulation :=
  match s.peerOf? epoch with
  | some conn => if s.peers[conn]?.any (·.brokerGone) then s else s.reportNet conn r
  | none => s

def closePeer (s : Simulation) (epoch : Nat) : Simulation :=
  match s.peerOf? epoch with
  | some conn => (s.brokerSees epoch .closed).updatePeer conn fun p => { p with engineGone := true }
  | none => s

def carryOut (epoch : Nat) (s : Simulation) : Effect → Simulation
  | .attempt epoch host port => { s with attempts := s.attempts ++ [(epoch, host, port)] }
  | .write _ _ bytes => s.brokerSees epoch (NetReport.ofFrame bytes)
  | .close => s.closePeer epoch
  | .answer call outcome => s.answer call outcome
  | .deliver handler m =>
    let messages := s.report.messages ++ [(handler, s.engine.now, m)]
    { s with report := { s.report with messages } }

/-- Lets the engine do something and carries out what it wants done. -/
def withEngine (s : Simulation) (f : Engine → Engine) : Simulation :=
  let epoch := s.engine.epoch
  let (effects, engine) := (f s.engine).takeEffects
  effects.foldl (carryOut epoch) { s with engine }

def dropStale (s : Simulation) : Command → Simulation
  | .opened epoch (.ok _) => if epoch = s.engine.epoch then s else s.closePeer epoch
  | _ => s

def handle (s : Simulation) (c : Command) : Simulation :=
  (s.dropStale c).withEngine (·.handle c)

def drain (s : Simulation) : Simulation := s.queue.foldl handle { s with queue := [] }

def stopIfAlone (s : Simulation) : Simulation :=
  if s.running && !s.clientHeld && s.waiting.isEmpty then
    { s.withEngine Engine.stop with running := false }
  else s

def fireTimers (s : Simulation) : Simulation :=
  (s.engine.timers.due s.engine.now).foldl (fun s (timer, a) => s.post (.timer timer a.id)) s

def refused : TransportError := .io "no broker"

def accept (s : Simulation) (epoch : Nat) : Simulation :=
  let limit := s.engine.config.elim 0 Config.maxIncoming
  { s with peers := s.peers.push { epoch, reader := { limit } } }.post (.opened epoch (.ok none))

def reachConnector (s : Simulation) : Nat × String × UInt16 → Simulation
  | (epoch, host, port) =>
    if s.engine.opening ∧ s.engine.epoch = epoch then
      let behaviour := s.behaviours.headD .refuse
      let s := { s with
        behaviours := s.behaviours.tail
        report := { s.report with attempts := s.report.attempts ++ [(s.engine.now, host, port)] } }
      match behaviour with
      | .accept => s.accept epoch
      | .refuse => s.post (.opened epoch (.error refused))
      | .closed => s.post (.opened epoch (.error .connectionClosed))
      | .hang => s
      | .dead => s.post (.opened epoch (.ok (some 0)))
    else s

def reachAll (s : Simulation) : Simulation :=
  s.attempts.foldl reachConnector { s with attempts := [] }

/-- The engine reads what the broker wrote, and the end behind it. -/
def readPeer (s : Simulation) (conn : Nat) (p : Peer) : Simulation :=
  let (reader, packets, error) := p.reader.receive p.unread
  let (reader, ending) := if p.brokerGone then reader.finish else (reader, none)
  let s := s.updatePeer conn fun p => { p with reader, unread := [] }
  let s := packets.foldl (fun s packet => s.post (.incoming p.epoch packet)) s
  match error <|> ending with
  | some err => s.post (.networkDown p.epoch err)
  | none => s

def readPeers (s : Simulation) : Simulation :=
  match s.engine.link, s.peerOf? s.engine.epoch with
  | some _, some conn =>
    match s.peers[conn]? with
    | some p => s.readPeer conn p
    | none => s
  | _, _ => s

/-- How often the world may take turns at one instant. -/
def maxTurns : Nat := 1000000

def settleLoop : (fuel : Nat) → Simulation → Simulation
  | 0, s => s
  | fuel + 1, s =>
    let s := s.drain.stopIfAlone
    if s.running then
      let s := s.fireTimers.reachAll.readPeers
      if s.queue.isEmpty then s else settleLoop fuel s
    else { s with queue := [] }

/-- Runs the engine until nothing is left to do at this instant. -/
def settle (s : Simulation) : Simulation := settleLoop maxTurns s

def setClock (s : Simulation) (t : Time) : Simulation :=
  { s with engine := { s.engine with now := t } }

def advanceLoop (finish : Time) : (fuel : Nat) → Simulation → Simulation
  | 0, s => s
  | fuel + 1, s =>
    if s.running then
      match s.engine.timers.nextTick? with
      | some t =>
        if t ≤ finish then advanceLoop finish fuel (s.setClock (max t s.engine.now)).settle else s
      | none => s
    else s

/-- Time passes from one timer to the next. Timers that are due at the end are included; there is at
most one tick a millisecond. -/
def advance (s : Simulation) (d : Duration) : Simulation :=
  let finish := s.engine.now + d.nanos
  (advanceLoop finish (d.millis + 2) s.settle).setClock finish

/-- Puts a command of a client in the queue, if there is an engine to take it. -/
def submit (s : Simulation) (call : CallId) : Except ClientError Command → Simulation
  | .ok c => if s.running then s.post c else s.answer call (.error .engineGone)
  | .error err => s.answer call (.error err)

def operate (s : Simulation) (o : Operation) : Simulation :=
  let call := s.nextCall
  let cancellable := match o with
    | .connect _ | .disconnect _ => false
    | _ => true
  let w : Waiting := { call, cancellable }
  let s := { s with nextCall := call + 1, waiting := s.waiting ++ [w] }
  s.submit call <| match o with
    | .connect config => .ok (.connect call config)
    | .publish d => (Client.publish call d).map .call
    | .subscribe filters => (Client.subscribe call filters call).map .call
    | .unsubscribe filters => (Client.unsubscribe call filters).map .call
    | .disconnect reason => .ok (.disconnect call reason)

/-- The command of a call found no room in the queue. -/
def isInLine (s : Simulation) (call : CallId) : Bool :=
  (s.queue.drop s.capacity).any fun c => c.call? == some call

def leaveLine (s : Simulation) (call : CallId) : Simulation :=
  { s with queue := s.queue.filter fun c => c.call? != some call }

/-- The engine learns that a caller left: by a command if the queue has room for it, and otherwise
when it looks for the caller. -/
def notifyEngine (s : Simulation) (w : Waiting) (lost : Bool) : Simulation :=
  let s : Simulation := { s with engine := s.engine.abandon w.call }
  if w.cancellable ∧ !lost ∧ s.queue.length < s.capacity then s.post (.cancel w.call) else s

/-- The caller leaves. Its command is gone if it still stands in line. -/
def cancel (s : Simulation) (w : Waiting) (lost : Bool) : Simulation :=
  let s : Simulation := { s with waiting := s.waiting.filter (·.call != w.call) }
  if s.isInLine w.call then s.leaveLine w.call else s.notifyEngine w lost

def connOf (s : Simulation) (conn : Option Nat) : Nat := conn.getD (s.peers.size - 1)

def brokerWrite (s : Simulation) (conn : Nat) (bytes : Bytes) : Simulation :=
  s.updatePeer conn fun p =>
    if p.brokerGone || p.engineGone then p else { p with unread := p.unread ++ bytes }

/-- The broker drops its end, and writes to it fail from now on. -/
def brokerClose (s : Simulation) (conn : Nat) : Simulation :=
  match s.peers[conn]? with
  | none => s
  | some p =>
    let s := s.updatePeer conn fun p => { p with brokerGone := true }
    if p.epoch = s.engine.epoch then
      { s with engine := { s.engine with link := s.engine.link.map Link.breakOff } }
    else s

def kill (s : Simulation) : Simulation :=
  let s := { s with running := false, queue := [], attempts := [] }
  s.waiting.foldl (fun s w => s.answer w.call (.error .engineGone)) s

def act (s : Simulation) : Action → Simulation
  | .operation o => s.operate o
  | .cancel call lost =>
    match s.waiting.find? (·.call == call) with
    | some w => s.cancel w lost
    | none => s
  | .broker conn bytes => s.brokerWrite (s.connOf conn) bytes
  | .brokerClose conn => s.brokerClose (s.connOf conn)
  | .connector next => { s with behaviours := s.behaviours ++ next }
  | .advance d => s.advance d
  | .dropClient => { s with clientHeld := false }
  | .kill => s.kill

/-- What happened since the last report. Answers are listed by their calls, messages by their
handlers. -/
def takeReport (s : Simulation) : Simulation × Report :=
  ({ s with report := {} },
    { s.report with
      answers := s.report.answers.mergeSort fun a b => a.1 ≤ b.1
      messages := s.report.messages.mergeSort fun a b => a.1 ≤ b.1 })

/-- Does some things at once, and then lets the engine run. -/
def step (s : Simulation) (actions : List Action) : Simulation × Report :=
  (actions.foldl act s).settle.takeReport

end Simulation

end MqttClient
