/-! Points and spans of time, in nanoseconds. A span stops at the largest that sixty-four bits of
seconds express. -/

namespace MqttClient

/-- Nanoseconds since the start. -/
abbrev Time := Nat

structure Duration where
  nanos : Nat
  nanos_le : nanos ≤ (UInt64.size - 1) * 1000000000 + 999999999
  deriving DecidableEq, Repr

namespace Duration

def maxNanos : Nat := (UInt64.size - 1) * 1000000000 + 999999999

def ofNanos (n : Nat) : Duration := ⟨min n maxNanos, Nat.min_le_right ..⟩

def ofMillis (n : Nat) : Duration := ofNanos (n * 1000000)

def ofSeconds (n : Nat) : Duration := ofNanos (n * 1000000000)

def zero : Duration := ⟨0, Nat.zero_le _⟩

instance : Inhabited Duration := ⟨zero⟩

instance : LE Duration := ⟨fun a b => a.nanos ≤ b.nanos⟩

instance : LT Duration := ⟨fun a b => a.nanos < b.nanos⟩

instance (a b : Duration) : Decidable (a ≤ b) := inferInstanceAs (Decidable (a.nanos ≤ b.nanos))

instance (a b : Duration) : Decidable (a < b) := inferInstanceAs (Decidable (a.nanos < b.nanos))

def isZero (d : Duration) : Bool := d.nanos == 0

def seconds (d : Duration) : Nat := d.nanos / 1000000000

def subsecond (d : Duration) : Nat := d.nanos % 1000000000

def millis (d : Duration) : Nat := d.nanos / 1000000

def add (a b : Duration) : Duration := ofNanos (a.nanos + b.nanos)

/-- The span less another, or nothing. -/
def sub (a b : Duration) : Duration := ofNanos (a.nanos - b.nanos)

def scale (d : Duration) (k : Nat) : Duration := ofNanos (d.nanos * k)

def min (a b : Duration) : Duration := if a ≤ b then a else b

def truncate (d : Duration) : Duration := ofSeconds d.seconds

def between (start finish : Time) : Duration := ofNanos (finish - start)

/-- Digits behind the point, `width` of them, without the zeros at the end. -/
def fraction (n width : Nat) : String :=
  let digits := (Nat.toDigits 10 n).leftpad width '0'
  let shown := (digits.reverse.dropWhile (· == '0')).reverse
  if shown.isEmpty then "" else "." ++ String.ofList shown

/-- In the largest unit up to seconds that gives a whole part. -/
def text (d : Duration) : String :=
  let unit (size width : Nat) (symbol : String) : String :=
    toString (d.nanos / size) ++ fraction (d.nanos % size) width ++ symbol
  if d.nanos ≥ 1000000000 then unit 1000000000 9 "s"
  else if d.nanos ≥ 1000000 then unit 1000000 6 "ms"
  else if d.nanos ≥ 1000 then unit 1000 3 "µs"
  else toString d.nanos ++ "ns"

end Duration

end MqttClient
