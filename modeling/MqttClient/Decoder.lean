import MqttClient.VarInt

/-! Readers of the parts of a packet. A reader takes what it needs off the front of the bytes that
are left; a part that runs past their end is an error of the packet, never a request for more
bytes. -/

namespace MqttClient

abbrev Decoder := StateT Bytes (Except WireError)

namespace Decoder

def byte : Decoder UInt8 := fun
  | b :: rest => .ok (b, rest)
  | _ => .error .malformedPacket

def twoBytes : Decoder UInt16 := fun
  | a :: b :: rest => .ok (Bytes.toUInt16 a b, rest)
  | _ => .error .malformedPacket

def fourBytes : Decoder UInt32 := fun
  | a :: b :: c :: d :: rest => .ok (Bytes.toUInt32 a b c d, rest)
  | _ => .error .malformedPacket

def varInt : Decoder Nat := fun b =>
  match VarInt.decode b with
  | .ok (count, n) => .ok (n, b.drop count)
  | .error (.insufficientBytes _) => .error .malformedPacket
  | .error e => .error e

/-- The next `n` bytes, all of which have to be there. -/
def span (n : Nat) : Decoder Bytes := fun b =>
  if (b.take n).length < n then .error (.boundaryCrossed n) else .ok (b.take n, b.drop n)

/-- Bytes behind their length in two bytes. -/
def binary : Decoder Bytes := do
  let length ← twoBytes
  span length.toNat

/-- Text without the character zero, behind the length of its UTF-8 form. -/
def text : Decoder String := do
  match Bytes.toText? (← binary) with
  | some s => if '\x00' ∈ s.toList then throw .notUtf8 else return s
  | none => throw .notUtf8

def remaining : Decoder Bytes := fun b => .ok (b, [])

def atEnd : Decoder Bool := fun b => .ok (b.isEmpty, b)

/-- Reads items until nothing is left, `fuel` of them at most; `acc` holds the items so far, the
last one first. -/
def itemsLoop (item : Decoder α) : (fuel : Nat) → (acc : List α) → Decoder (List α)
  | _, acc, [] => .ok (acc.reverse, [])
  | 0, _, _ => .error .malformedPacket
  | fuel + 1, acc, b =>
    match item b with
    | .ok (x, rest) => itemsLoop item fuel (x :: acc) rest
    | .error e => .error e

/-- Items up to the end. As every item takes at least a byte, there are no more items than bytes. -/
def items (item : Decoder α) : Decoder (List α) := fun b => itemsLoop item b.length [] b

/-- Reads the whole of `block`, which stands on its own. -/
def within (block : Bytes) (decoder : Decoder α) : Except WireError α :=
  (decoder.run block).map (·.1)

end Decoder

def encodeBinary (b : Bytes) : Except WireError Bytes :=
  if b.length ≤ 65535 then .ok (Bytes.ofUInt16 b.length.toUInt16 ++ b)
  else .error (.stringTooLong b.length)

def encodeText (s : String) : Except WireError Bytes := encodeBinary (Bytes.ofText s)

end MqttClient
