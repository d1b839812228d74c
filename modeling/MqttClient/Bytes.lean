/-! Byte strings, big-endian words, and the UTF-8 form of text. -/

namespace MqttClient

abbrev Bytes := List UInt8

namespace Bytes

/-- The two bytes of a word, the high one first. -/
def ofUInt16 (w : UInt16) : Bytes := [(w >>> 8).toUInt8, w.toUInt8]

def ofUInt32 (w : UInt32) : Bytes :=
  [(w >>> 24).toUInt8, (w >>> 16).toUInt8, (w >>> 8).toUInt8, w.toUInt8]

def toUInt16 (high low : UInt8) : UInt16 := high.toUInt16 <<< 8 ||| low.toUInt16

def toUInt32 (a b c d : UInt8) : UInt32 :=
  a.toUInt32 <<< 24 ||| b.toUInt32 <<< 16 ||| c.toUInt32 <<< 8 ||| d.toUInt32

def ofText (s : String) : Bytes := s.toUTF8.data.toList

def toText? (b : Bytes) : Option String := String.fromUTF8? b.toByteArray

@[simp] theorem length_ofUInt16 (w : UInt16) : (ofUInt16 w).length = 2 := rfl

@[simp] theorem length_ofText (s : String) : (ofText s).length = s.utf8ByteSize := rfl

theorem toText?_ofText (s : String) : toText? (ofText s) = some s := by
  have h : (ofText s).toByteArray = s.toByteArray := by
    apply ByteArray.ext
    rw [List.data_toByteArray]
    simp [ofText]
  unfold toText? String.fromUTF8?
  rw [h, dif_pos s.isValidUTF8]
  rfl

theorem ofText_of_toText? {b : Bytes} {s : String} (h : toText? b = some s) : ofText s = b := by
  unfold toText? String.fromUTF8? at h
  split at h
  · injection h with h
    subst h
    simp [ofText, String.fromUTF8, List.data_toByteArray]
  · contradiction

end Bytes

end MqttClient
