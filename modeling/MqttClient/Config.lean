import MqttClient.Duration
import MqttClient.Packet

/-! What a client is configured with. The defaults stand in the fields; a setter exists where a
value is brought into shape before it is kept. -/

namespace MqttClient

inductive TimeoutPolicy
  /-- The call fails and the connection goes on. -/
  | drop
  /-- The call fails and the connection is given up. -/
  | reset
  deriving DecidableEq, Repr

def TimeoutPolicy.name : TimeoutPolicy → String
  | drop => "Drop"
  | reset => "Reset"

/-- Delays between attempts to connect: the n-th waits `minBackoff * 2^(n-1)` and up to `jitter`
more, but never more than `maxBackoff`. -/
structure ReconnectOptions where
  minBackoff : Duration := .ofSeconds 1
  maxBackoff : Duration := .ofSeconds 60
  jitter : Duration := .ofSeconds 1
  deriving DecidableEq, Repr

structure Config where
  clientId : String
  host : String
  port : UInt16
  keepAlive : Duration := .ofSeconds 30
  cleanStart : Bool := true
  username : Option String := none
  password : Option Bytes := none
  /-- Longest body of a packet that is accepted. -/
  maxIncoming : Nat := 10240
  /-- Longest packet that is sent. -/
  maxOutgoing : Nat := 10240
  inflight : UInt16 := 100
  lastWill : Option LastWill := none
  connectTimeout : Duration := .ofSeconds 5
  ackTimeoutOption : Option Duration := none
  maxRetries : UInt16 := 3
  pingGraceOption : Option Duration := none
  timeoutPolicy : TimeoutPolicy := .drop
  reconnect : Option ReconnectOptions := none
  connectProperties : Properties := []
  one_le_inflight : 1 ≤ inflight := by decide
  deriving DecidableEq, Repr

namespace Config

/-- Only whole seconds count; zero turns the keep alive off. -/
def setKeepAlive (c : Config) (d : Duration) : Config := { c with keepAlive := d.truncate }

theorem one_le_one : (1 : UInt16) ≤ 1 := UInt16.le_refl 1

theorem one_le_hundred : (1 : UInt16) ≤ 100 := by decide

theorem one_le_max (n : UInt16) : 1 ≤ max n 1 := by
  change 1 ≤ if n ≤ 1 then 1 else n
  split
  · exact UInt16.le_refl 1
  · next h => exact UInt16.le_of_lt (UInt16.not_le.1 h)

def setInflight (c : Config) (n : UInt16) : Config :=
  { c with inflight := max n 1, one_le_inflight := one_le_max n }

def setCredentials (c : Config) (username : String) (password : Bytes) : Config :=
  { c with username := some username, password := some password }

/-- How long an acknowledgement may take: if not set, as long as the keep alive, or thirty seconds
without one. -/
def ackTimeout (c : Config) : Duration :=
  c.ackTimeoutOption.getD (if c.keepAlive.isZero then .ofSeconds 30 else c.keepAlive)

def pingGrace (c : Config) : Duration := c.pingGraceOption.getD c.keepAlive

def connectPacket (c : Config) : Connect :=
  { keepAlive := (min c.keepAlive.seconds 65535).toUInt16, clientId := c.clientId
    cleanStart := c.cleanStart, properties := c.connectProperties, lastWill := c.lastWill
    username := c.username, password := c.password }

end Config

end MqttClient
