import MqttClient.Bytes

/-! Text and bytes in quotes, as messages show them. -/

namespace MqttClient.Quoted

def hexDigits (width n : Nat) : String :=
  String.ofList ((Nat.toDigits 16 n).leftpad width '0')

def escapeChar (c : Char) : String :=
  match c with
  | '"' => "\\\""
  | '\\' => "\\\\"
  | '\x00' => "\\0"
  | '\t' => "\\t"
  | '\n' => "\\n"
  | '\r' => "\\r"
  | c =>
    if c.toNat < 0x20 ∨ (0x7F ≤ c.toNat ∧ c.toNat < 0xA0) then
      "\\u\x7b" ++ hexDigits 1 c.toNat ++ "\x7d"
    else String.singleton c

/-- Only control characters, the quote and the backslash are escaped. -/
def text (s : String) : String := "\"" ++ String.join (s.toList.map escapeChar) ++ "\""

def escapeByte (b : UInt8) : String :=
  match b with
  | 0x22 => "\\\""
  | 0x5C => "\\\\"
  | 0x00 => "\\0"
  | 0x09 => "\\t"
  | 0x0A => "\\n"
  | 0x0D => "\\r"
  | b =>
    if 0x20 ≤ b ∧ b < 0x7F then String.singleton (Char.ofNat b.toNat)
    else "\\x" ++ hexDigits 2 b.toNat

/-- Printable ASCII stands for itself; any other byte is escaped. -/
def bytes (b : Bytes) : String := "b\"" ++ String.join (b.map escapeByte) ++ "\""

end MqttClient.Quoted
