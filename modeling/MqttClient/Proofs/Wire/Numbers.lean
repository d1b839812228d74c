import MqttClient.VarInt

/-! Numbers as bytes. A word is the value of its bytes, the high one first, and a variable byte
integer is read back from what was written, whatever follows it. -/

namespace MqttClient

namespace Bytes

theorem toNat_toUInt16 (a b : UInt8) : (toUInt16 a b).toNat = 256 * a.toNat + b.toNat := by
  have ha := a.toNat_lt
  have join := Nat.two_pow_add_eq_or_of_lt (i := 8) b.toNat_lt a.toNat
  simp only [toUInt16, UInt16.toNat_or, UInt16.toNat_shiftLeft, UInt8.toNat_toUInt16,
    Nat.shiftLeft_eq]
  rw [show (8 : UInt16).toNat % 16 = 8 from rfl, Nat.mod_eq_of_lt (by omega), Nat.mul_comm, ← join]

theorem shiftLeft_toNat_mod (x : UInt8) {n : Nat} (hn : n ≤ 24) :
    x.toNat <<< n % 4294967296 = x.toNat <<< n := by
  apply Nat.mod_eq_of_lt
  rw [Nat.shiftLeft_eq]
  calc x.toNat * 2 ^ n < 2 ^ 8 * 2 ^ n := Nat.mul_lt_mul_of_pos_right x.toNat_lt (Nat.two_pow_pos n)
    _ ≤ 2 ^ 8 * 2 ^ 24 := Nat.mul_le_mul_left _ (Nat.pow_le_pow_right (by omega) hn)

theorem toNat_toUInt32 (a b c d : UInt8) :
    (toUInt32 a b c d).toNat =
      16777216 * a.toNat + (65536 * b.toNat + (256 * c.toNat + d.toNat)) := by
  have hb := b.toNat_lt
  have hc := c.toNat_lt
  have hd := d.toNat_lt
  -- each byte lies below the bits of the bytes in front of it, so that joining them adds them
  have low := Nat.two_pow_add_eq_or_of_lt (i := 8) hd c.toNat
  have middle := Nat.two_pow_add_eq_or_of_lt (i := 16) (b := 256 * c.toNat + d.toNat) (by omega)
    b.toNat
  have high := Nat.two_pow_add_eq_or_of_lt (i := 24)
    (b := 65536 * b.toNat + (256 * c.toNat + d.toNat)) (by omega) a.toNat
  simp only [toUInt32, UInt32.toNat_or, UInt32.toNat_shiftLeft, UInt8.toNat_toUInt32]
  rw [show (8 : UInt32).toNat % 32 = 8 from rfl, show (16 : UInt32).toNat % 32 = 16 from rfl,
    show (24 : UInt32).toNat % 32 = 24 from rfl, shiftLeft_toNat_mod a (by omega),
    shiftLeft_toNat_mod b (by omega), shiftLeft_toNat_mod c (by omega), Nat.shiftLeft_eq,
    Nat.shiftLeft_eq, Nat.shiftLeft_eq, Nat.or_assoc, Nat.or_assoc, Nat.mul_comm c.toNat, ← low,
    Nat.mul_comm b.toNat, ← middle, Nat.mul_comm a.toNat, ← high]

@[simp] theorem toUInt16_ofUInt16 (w : UInt16) : toUInt16 (w >>> 8).toUInt8 w.toUInt8 = w := by
  apply UInt16.toNat_inj.1
  have := w.toNat_lt
  simp only [toNat_toUInt16, UInt16.toNat_toUInt8, UInt16.toNat_shiftRight,
    Nat.shiftRight_eq_div_pow]
  rw [show (8 : UInt16).toNat % 16 = 8 from rfl]
  omega

@[simp] theorem toUInt32_ofUInt32 (w : UInt32) :
    toUInt32 (w >>> 24).toUInt8 (w >>> 16).toUInt8 (w >>> 8).toUInt8 w.toUInt8 = w := by
  apply UInt32.toNat_inj.1
  have := w.toNat_lt
  simp only [toNat_toUInt32, UInt32.toNat_toUInt8, UInt32.toNat_shiftRight,
    Nat.shiftRight_eq_div_pow]
  rw [show (8 : UInt32).toNat % 32 = 8 from rfl, show (16 : UInt32).toNat % 32 = 16 from rfl,
    show (24 : UInt32).toNat % 32 = 24 from rfl]
  omega

end Bytes

namespace VarInt

/-- How many numbers so many groups tell apart. -/
def capacity : (bytes : Nat) → Nat
  | 0 => 1
  | bytes + 1 => 128 * capacity bytes

/-- The bytes make the number, seven bits each, the lowest first. Only the last is below 128. -/
inductive Spells : Bytes → Nat → Prop
  | last {b : UInt8} (small : b.toNat < 128) : Spells [b] b.toNat
  | more {b : UInt8} {groups : Bytes} {high : Nat} (large : 128 ≤ b.toNat)
    (rest : Spells groups high) : Spells (b :: groups) (b.toNat - 128 + 128 * high)

theorem Spells.decodeGroups_append {groups : Bytes} {n : Nat} (h : Spells groups n) {k : Nat}
    (few : groups.length ≤ k) (rest : Bytes) :
    decodeGroups k (groups ++ rest) = .ok (groups.length, n) := by
  induction h generalizing k with
  | @last b small =>
    rw [List.length_singleton] at few
    obtain ⟨k, rfl⟩ := Nat.exists_eq_add_of_le' few
    rw [List.singleton_append, decodeGroups, if_pos (UInt8.lt_iff_toNat_lt.2 small)]
    rfl
  | @more b groups high large _ ih =>
    obtain ⟨k, rfl⟩ := Nat.exists_eq_add_of_le' (Nat.le_of_add_left_le few)
    have next : ¬ b < 128 := fun lt => Nat.not_lt.2 large (UInt8.lt_iff_toNat_lt.1 lt)
    rw [List.cons_append, decodeGroups, if_neg next, ih (Nat.le_of_succ_le_succ few)]
    rfl

theorem spells_of_decodeGroups {k : Nat} {b : Bytes} {count n : Nat}
    (h : decodeGroups k b = .ok (count, n)) :
    ∃ groups rest, b = groups ++ rest ∧ groups.length = count ∧ count ≤ k ∧ Spells groups n := by
  induction k generalizing b count n with
  | zero => cases h
  | succ k ih =>
    cases b with
    | nil => cases h
    | cons x b =>
      rw [decodeGroups] at h
      split at h
      · next last =>
        cases h
        exact ⟨[x], b, rfl, rfl, Nat.le_add_left 1 k, .last (UInt8.lt_iff_toNat_lt.1 last)⟩
      · next next =>
        rcases hr : decodeGroups k b with e | ⟨c, high⟩
        · rw [hr] at h
          cases h
        · rw [hr] at h
          cases h
          obtain ⟨groups, rest, rfl, rfl, few, spells⟩ := ih hr
          have large : 128 ≤ x.toNat := Nat.not_lt.1 fun lt => next (UInt8.lt_iff_toNat_lt.2 lt)
          exact ⟨x :: groups, rest, rfl, rfl, Nat.succ_le_succ few, .more large spells⟩

theorem Spells.bounds {groups : Bytes} {n : Nat} (h : Spells groups n) :
    0 < groups.length ∧ n < capacity groups.length := by
  induction h with
  | last small => exact ⟨Nat.one_pos, small⟩
  | @more b groups high _ _ ih =>
    have byte := b.toNat_lt
    refine ⟨Nat.succ_pos _, ?_⟩
    rw [List.length_cons, capacity]
    omega

theorem spells_groups {k n : Nat} (hk : k ≠ 0) (hn : n < capacity k) :
    Spells (groups k n) n ∧ (groups k n).length ≤ k := by
  induction k generalizing n with
  | zero => exact absurd rfl hk
  | succ k ih =>
    rw [groups]
    split
    · next small =>
      have value : n.toUInt8.toNat = n := by simp; omega
      have spelled := Spells.last (b := n.toUInt8) (by omega)
      rw [value] at spelled
      exact ⟨spelled, Nat.le_add_left 1 k⟩
    · next large =>
      have value : (n % 128 + 128).toUInt8.toNat = n % 128 + 128 := by simp; omega
      have above : k ≠ 0 := by
        rintro rfl
        exact large hn
      have high : n / 128 < capacity k := by
        rw [capacity] at hn
        omega
      obtain ⟨rest, few⟩ := ih above high
      have spelled := Spells.more (b := (n % 128 + 128).toUInt8) (by omega) rest
      rw [value, Nat.add_sub_cancel, Nat.mod_add_div] at spelled
      exact ⟨spelled, Nat.succ_le_succ few⟩

@[simp] theorem length_groups (n : Nat) : (groups 4 n).length = size n := by
  simp only [groups, size]
  repeat' split
  all_goals grind

theorem size_pos (n : Nat) : 0 < size n := by
  unfold size
  repeat' split
  all_goals omega

theorem encode_eq_ok {n : Nat} {b : Bytes} :
    encode n = .ok b ↔ n ≤ maxValue ∧ groups 4 n = b := by
  unfold encode
  split
  · next fits => simp [fits]
  · next large => simp [large]

theorem decode_groups {n : Nat} (hn : n ≤ maxValue) (rest : Bytes) :
    decode (groups 4 n ++ rest) = .ok (size n, n) := by
  obtain ⟨spelled, few⟩ := spells_groups (by omega) (show n < capacity 4 from Nat.lt_succ_of_le hn)
  rw [decode, spelled.decodeGroups_append few, length_groups]

end VarInt

end MqttClient
