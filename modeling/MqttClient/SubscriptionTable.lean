import MqttClient.Packet
import MqttClient.Topic
import Std.Data.TreeMap

/-! Which handler gets the messages of which topic filter. `H` is what names a handler; two entries
with the same name belong to one handler. -/

namespace MqttClient

structure Message where
  topic : String
  payload : Bytes
  qos : QoS
  retain : Bool
  dup : Bool
  properties : Properties
  deriving DecidableEq, Repr

def Message.ofPublish (p : Publish) : Message :=
  { topic := p.topic, payload := p.payload, qos := p.qos, retain := p.retain, dup := p.dup
    properties := p.properties }

structure Subscription (H : Type) where
  qos : QoS
  handler : H
  deriving DecidableEq, Repr

structure SubscriptionTable (H : Type) where
  entries : Std.TreeMap String (Subscription H) := {}

namespace SubscriptionTable

variable {H : Type}

/-- An entry of the same path is replaced. -/
def insert (t : SubscriptionTable H) (f : Filter) (handler : H) : SubscriptionTable H :=
  { entries := t.entries.insert f.path { qos := f.qos, handler } }

def erase (t : SubscriptionTable H) (path : String) : SubscriptionTable H :=
  { entries := t.entries.erase path }

def contains (t : SubscriptionTable H) (path : String) : Bool := t.entries.contains path

def size (t : SubscriptionTable H) : Nat := t.entries.size

def isEmpty (t : SubscriptionTable H) : Bool := t.entries.isEmpty

def get? (t : SubscriptionTable H) (path : String) : Option (Subscription H) := t.entries[path]?

/-- Every filter by its path, to subscribe again after a reconnection. -/
def filters (t : SubscriptionTable H) : List Filter :=
  t.entries.toList.map fun (path, s) => { path, qos := s.qos }

/-- The handlers with a filter that matches, each once. -/
def handlersOf [BEq H] (t : SubscriptionTable H) (topic : String) : List H :=
  ((t.entries.toList.filter fun (path, _) => Topic.isMatch topic path).map (·.2.handler)).eraseDups

structure Dispatch (H : Type) where
  runs : List (H × Message)
  count : Nat
  deriving DecidableEq, Repr

def Dispatch.of (handlers : List H) (p : Publish) : Dispatch H :=
  { runs := handlers.map fun h => (h, .ofPublish p), count := handlers.length }

def dispatch [BEq H] (t : SubscriptionTable H) (p : Publish) : Dispatch H :=
  .of (t.handlersOf p.topic) p

def eraseAll (t : SubscriptionTable H) (paths : List String) : SubscriptionTable H :=
  paths.foldl erase t

end SubscriptionTable

end MqttClient
