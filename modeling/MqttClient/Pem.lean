import MqttClient.Bytes

/-! Text armour around binary data: blocks between a line that names what is in them and the
matching last line, in base 64. Lines outside of blocks are not looked at. -/

namespace MqttClient.Pem

def sextet? (c : Char) : Option UInt8 :=
  if 'A' ≤ c ∧ c ≤ 'Z' then some (c.toNat - 'A'.toNat).toUInt8
  else if 'a' ≤ c ∧ c ≤ 'z' then some (c.toNat - 'a'.toNat + 26).toUInt8
  else if '0' ≤ c ∧ c ≤ '9' then some (c.toNat - '0'.toNat + 52).toUInt8
  else if c = '+' then some 62
  else if c = '/' then some 63
  else none

/-- Four groups of six bits make three bytes; a last group of two or three makes one or two. -/
def bytesOfSextets : List UInt8 → Option Bytes
  | a :: b :: c :: d :: rest => do
    let tail ← bytesOfSextets rest
    return (a <<< 2 ||| b >>> 4) :: (b <<< 4 ||| c >>> 2) :: (c <<< 6 ||| d) :: tail
  | [a, b, c] => some [a <<< 2 ||| b >>> 4, b <<< 4 ||| c >>> 2]
  | [a, b] => some [a <<< 2 ||| b >>> 4]
  | [_] => none
  | [] => some []

def decodeBase64 (cs : List Char) : Option Bytes := do
  bytesOfSextets (← (cs.takeWhile (· != '=')).mapM sextet?)

structure Block where
  label : List Char
  body : Bytes
  deriving DecidableEq, Repr

def dashes : List Char := "-----".toList

def beginning : List Char := "-----BEGIN ".toList

def isBlank (c : Char) : Bool := c == ' ' || c == '\r' || c == '\t'

def trimEnd (l : List Char) : List Char := (l.reverse.dropWhile isBlank).reverse

/-- The label of a line that opens a block. -/
def opening? (line : List Char) : Option (List Char) :=
  let line := trimEnd line
  if beginning.isPrefixOf line && dashes.isSuffixOf (line.drop beginning.length) then
    some ((line.drop beginning.length).dropLast.dropLast.dropLast.dropLast.dropLast)
  else none

def isClosing (label line : List Char) : Bool :=
  ("-----END ".toList ++ label ++ dashes).isPrefixOf line

/-- What has been read: the finished blocks, the last one first, and the block that is open. -/
structure Progress where
  blocks : List Block := []
  current : Option (List Char × List Char) := none

def Progress.line (p : Progress) (line : List Char) : Progress :=
  match opening? line, p.current with
  | some label, _ => { p with current := some (label, []) }
  | none, none => p
  | none, some (label, content) =>
    if isClosing label line then
      match decodeBase64 content with
      | some body => { blocks := { label, body } :: p.blocks }
      | none => { p with current := none }
    else { p with current := some (label, content ++ trimEnd line) }

def blocks (s : String) : List Block :=
  ((s.toList.splitOn '\n').foldl Progress.line {}).blocks.reverse

def certificates (s : String) : List Bytes :=
  ((blocks s).filter (·.label == "CERTIFICATE".toList)).map (·.body)

def isKeyLabel (label : List Char) : Bool :=
  label == "PRIVATE KEY".toList || label == "RSA PRIVATE KEY".toList
    || label == "EC PRIVATE KEY".toList

def privateKey? (s : String) : Option Bytes :=
  ((blocks s).find? (isKeyLabel ·.label)).map (·.body)

def occursIn (pattern : List Char) : List Char → Bool
  | [] => pattern.isEmpty
  | c :: cs => pattern.isPrefixOf (c :: cs) || occursIn pattern cs

/-- A key that needs a password is told by its label or by its header, wherever it stands. -/
def isEncrypted (s : String) : Bool :=
  occursIn "ENCRYPTED PRIVATE KEY".toList s.toList
    || occursIn "Proc-Type: 4,ENCRYPTED".toList s.toList

end MqttClient.Pem
