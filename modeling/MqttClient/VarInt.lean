import MqttClient.Bytes
import MqttClient.WireError

/-! Variable byte integers: groups of seven bits, the lowest first, each but the last marked by its
top bit, four bytes at most. -/

namespace MqttClient.VarInt

/-- The largest number that four bytes carry. -/
def maxValue : Nat := 268435455

/-- How many bytes a number takes; one above `maxValue` is counted as four. -/
def size (n : Nat) : Nat :=
  if n < 128 then 1 else if n < 16384 then 2 else if n < 2097152 then 3 else 4

/-- The lowest groups of a number, no more than `bytes` of them. -/
def groups : (bytes : Nat) → Nat → Bytes
  | 0, _ => []
  | bytes + 1, n =>
    if n < 128 then [n.toUInt8] else (n % 128 + 128).toUInt8 :: groups bytes (n / 128)

def encode (n : Nat) : Except WireError Bytes :=
  if n ≤ maxValue then .ok (groups 4 n) else .error .payloadTooLong

/-- Reads at most `bytes` groups: how many there were, and the number they make. -/
def decodeGroups : (bytes : Nat) → Bytes → Except WireError (Nat × Nat)
  | 0, _ => .error .malformedRemainingLength
  | _ + 1, [] => .error (.insufficientBytes 1)
  | bytes + 1, b :: rest =>
    if b < 128 then .ok (1, b.toNat)
    else do
      let (count, high) ← decodeGroups bytes rest
      return (count + 1, (b.toNat - 128) + 128 * high)

/-- The number at the start of `b`, after the count of the bytes that make it. -/
def decode (b : Bytes) : Except WireError (Nat × Nat) := decodeGroups 4 b

end MqttClient.VarInt
