import MqttClient.Duration
import Std.Data.TreeMap

/-! The timers of an engine. There is at most one of a kind, and one for each packet identifier that
waits for its acknowledgement. -/

namespace MqttClient

inductive Timer
  /-- The session has to be open by then. -/
  | connect
  /-- The acknowledgement of a packet identifier is due. -/
  | ack (packetId : UInt16)
  | keepAlive
  /-- The answer to a ping is due. -/
  | pingResp
  | reconnect
  deriving DecidableEq, Repr

/-- A timer that runs. The number tells it from every other timer, also of its own kind. -/
structure Armed where
  id : Nat
  deadline : Time
  deriving DecidableEq, Repr

/-- Timers run on a clock that ticks in milliseconds; one fires at the first tick that is not before
its deadline. -/
def Armed.tick (a : Armed) : Time := (a.deadline + 999999) / 1000000 * 1000000

structure Timers where
  connect : Option Armed := none
  acks : Std.TreeMap UInt16 Armed := {}
  keepAlive : Option Armed := none
  pingResp : Option Armed := none
  reconnect : Option Armed := none

namespace Timers

def get? (ts : Timers) : Timer → Option Armed
  | .connect => ts.connect
  | .ack packetId => ts.acks[packetId]?
  | .keepAlive => ts.keepAlive
  | .pingResp => ts.pingResp
  | .reconnect => ts.reconnect

def set (ts : Timers) (timer : Timer) (a : Armed) : Timers :=
  match timer with
  | .connect => { ts with connect := some a }
  | .ack packetId => { ts with acks := ts.acks.insert packetId a }
  | .keepAlive => { ts with keepAlive := some a }
  | .pingResp => { ts with pingResp := some a }
  | .reconnect => { ts with reconnect := some a }

def erase (ts : Timers) : Timer → Timers
  | .connect => { ts with connect := none }
  | .ack packetId => { ts with acks := ts.acks.erase packetId }
  | .keepAlive => { ts with keepAlive := none }
  | .pingResp => { ts with pingResp := none }
  | .reconnect => { ts with reconnect := none }

def toList (ts : Timers) : List (Timer × Armed) :=
  (ts.connect.map (Timer.connect, ·)).toList
    ++ ts.acks.toList.map (fun (packetId, a) => (Timer.ack packetId, a))
    ++ (ts.keepAlive.map (Timer.keepAlive, ·)).toList
    ++ (ts.pingResp.map (Timer.pingResp, ·)).toList
    ++ (ts.reconnect.map (Timer.reconnect, ·)).toList

/-- Timers with an earlier tick come first; those with the same come in the order in which they were
armed. -/
def before (a b : Timer × Armed) : Bool :=
  a.2.tick < b.2.tick || (a.2.tick == b.2.tick && a.2.id ≤ b.2.id)

/-- The timers that have run out, in the order in which they fire. -/
def due (ts : Timers) (now : Time) : List (Timer × Armed) :=
  (ts.toList.filter fun (_, a) => a.tick ≤ now).mergeSort before

def nextTick? (ts : Timers) : Option Time := (ts.toList.map (·.2.tick)).min?

theorem get?_set_self (ts : Timers) (timer : Timer) (a : Armed) :
    (ts.set timer a).get? timer = some a := by
  cases timer <;> simp [set, get?]

theorem get?_erase_self (ts : Timers) (timer : Timer) : (ts.erase timer).get? timer = none := by
  cases timer <;> simp [erase, get?]

theorem get?_set_of_ne (ts : Timers) {timer other : Timer} (a : Armed) (h : other ≠ timer) :
    (ts.set timer a).get? other = ts.get? other := by
  cases timer <;> cases other <;> simp_all [set, get?, Std.TreeMap.getElem?_insert]
  exact fun e => absurd e.symm h

theorem get?_erase_of_ne (ts : Timers) {timer other : Timer} (h : other ≠ timer) :
    (ts.erase timer).get? other = ts.get? other := by
  cases timer <;> cases other <;> simp_all [erase, get?, Std.TreeMap.getElem?_erase]
  exact fun e => absurd e.symm h

end Timers

end MqttClient
