import MqttClient.Config

/-! How long to wait before the next attempt to connect. The delay doubles with every attempt in a
row that fails; a connection that held long enough starts the row anew. -/

namespace MqttClient

structure Backoff where
  /-- A connection that lasts longer than this is stable. -/
  stableAfter : Duration
  options : ReconnectOptions
  established : Option Time := none
  /-- Failures in a row. -/
  attempts : Nat := 0
  deriving DecidableEq, Repr

namespace Backoff

def maxAttempts : Nat := 32

def isStable (b : Backoff) (now : Time) : Bool :=
  b.established.any fun start => b.stableAfter < Duration.between start now

def onEstablished (b : Backoff) (now : Time) : Backoff := { b with established := some now }

def onFailed (b : Backoff) (now : Time) : Backoff :=
  let attempts := if b.isStable now then 0 else b.attempts
  { b with established := none, attempts := min (attempts + 1) maxAttempts }

/-- The milliseconds of jitter, counted in sixty-four bits. -/
def jitterMillis (b : Backoff) : Nat := b.options.jitter.millis % UInt64.size

/-- What a random draw adds: fewer milliseconds than the jitter has, or none if it has none. -/
def jitter (b : Backoff) (draw : Nat) : Duration :=
  if b.jitterMillis = 0 then .zero else .ofMillis (draw % b.jitterMillis)

def nextDelay (b : Backoff) (draw : Nat) : Duration :=
  if b.attempts = 0 then .zero
  else ((b.options.minBackoff.scale (Nat.pow 2 (b.attempts - 1))).add (b.jitter draw)).min
    b.options.maxBackoff

end Backoff

end MqttClient
