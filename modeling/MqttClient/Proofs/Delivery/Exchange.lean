import MqttClient.Engine.Request

/-! Two sessions that talk to each other. The sender publishes, the receiver takes the messages, and
two queues that lose nothing and keep their order lie between them, until the connection is reset:
then both queues are emptied and the sender takes its open transactions up again.

Each packet on its way to the receiver is kept together with the number of the transaction that it
was sent for. The number is read off the sender's table and no step looks at it; it tells which
publish a message that is handed on belongs to, also after packet identifiers were used again. -/

namespace MqttClient.Delivery

/-- A packet on its way, and the transaction that it was sent for. -/
structure Parcel where
  packet : Packet
  order : Option Nat

structure Exchange where
  sender : Session
  receiver : Session
  /-- On the way to the receiver, the earliest first. -/
  ahead : List Parcel
  back : List Packet
  /-- The publishes that the sender accepted, as they were sent, with their transactions. -/
  accepted : List (Nat × Publish)
  /-- The messages that the receiver handed on, with the transactions of their packets. -/
  delivered : List (Option Nat × Publish)
  /-- The transactions that the sender reported as published by a last acknowledgement. -/
  completed : List Nat

/-- One thing that happens. What it cannot do, such as to take from an empty queue, it leaves. -/
inductive Move
  | publish (now : Time) (p : Publish)
  | retransmit (now : Time) (packetId maxRetries : UInt16)
  | forward (now : Time)
  | answer (now : Time)
  | reset (now : Time) (toSender toReceiver : ConnAck)

def greet (s : Session) (now : Time) (p : ConnAck) : Session :=
  (s.connecting.1.receive now (.connAck { p with code := .success })).1

def stamp (s : Session) (packet : Packet) : Parcel :=
  { packet, order := (s.transaction? (Engine.packetIdOf packet)).map (·.order) }

def newEvents (before after : Session) : List Event := after.events.drop before.events.length

def deliveredBy (parcel : Parcel) : Event → Option (Option Nat × Publish)
  | .message p => some (parcel.order, p)
  | _ => none

def completedBy (before : Session) : Event → Option Nat
  | .published k (.pubComp _) => (before.transaction? k).map (·.order)
  | _ => none

def reply? : Except SessionError (Option Packet) → Option Packet
  | .ok reply => reply
  | .error _ => none

namespace Exchange

def start (maxInflight maxInflight' : UInt16) (now : Time) (toSender toReceiver : ConnAck) :
    Exchange where
  sender := greet { maxInflight } now toSender
  receiver := greet { maxInflight := maxInflight' } now toReceiver
  ahead := []
  back := []
  accepted := []
  delivered := []
  completed := []

def publish (x : Exchange) (now : Time) (p : Publish) : Exchange :=
  if p.qos = .atMostOnce then x
  else match x.sender.send now (.publish p) with
    | (s, .ok (.publish q)) =>
      { x with
        sender := s
        ahead := x.ahead ++ [stamp s (.publish q)]
        accepted := x.accepted ++ [(s.lastOrder, q)] }
    | _ => x

/-- A transaction that would be given up stays. -/
def retransmit (x : Exchange) (now : Time) (packetId maxRetries : UInt16) : Exchange :=
  match x.sender.retransmit now packetId maxRetries with
  | (s, .resend packet) => { x with sender := s, ahead := x.ahead ++ [stamp s packet] }
  | _ => x

def forward (x : Exchange) (now : Time) : Exchange :=
  match x.ahead with
  | [] => x
  | parcel :: rest =>
    let (r, result) := x.receiver.receive now parcel.packet
    { x with
      receiver := r
      ahead := rest
      back := x.back ++ (reply? result).toList
      delivered := x.delivered ++ (newEvents x.receiver r).filterMap (deliveredBy parcel) }

def answer (x : Exchange) (now : Time) : Exchange :=
  match x.back with
  | [] => x
  | packet :: rest =>
    let (s, result) := x.sender.receive now packet
    { x with
      sender := s
      ahead := x.ahead ++ (reply? result).toList.map (stamp s)
      back := rest
      completed := x.completed ++ (newEvents x.sender s).filterMap (completedBy x.sender) }

def reset (x : Exchange) (now : Time) (toSender toReceiver : ConnAck) : Exchange :=
  let (s, packets) := (greet x.sender.disconnected now toSender).replay now
  { x with
    sender := s
    receiver := greet x.receiver.disconnected now toReceiver
    ahead := packets.map (stamp s)
    back := [] }

def step (x : Exchange) : Move → Exchange
  | .publish now p => x.publish now p
  | .retransmit now packetId maxRetries => x.retransmit now packetId maxRetries
  | .forward now => x.forward now
  | .answer now => x.answer now
  | .reset now toSender toReceiver => x.reset now toSender toReceiver

def run (x : Exchange) (moves : List Move) : Exchange := moves.foldl step x

/-- How often the receiver handed on the message of a transaction. -/
def copies (x : Exchange) (order : Nat) : Nat := x.delivered.countP (·.1 == some order)

end Exchange

end MqttClient.Delivery
