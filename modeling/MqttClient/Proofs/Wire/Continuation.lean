import Mathlib.Algebra.BigOperators.Fin
import MqttClient.Proofs.Wire.Restored

/-! The bytes of a number. The highest bit of each says whether another one follows, and the other
seven are a digit, the lowest digit first. The reader goes by these bits alone: it takes the bytes
up to the first without the bit, which has to be among the first four. The writer keeps to the
fewest bytes that have room for the number. -/

namespace MqttClient.VarInt

def Continues (x : UInt8) : Prop := x.toNat.testBit 7 = true

instance : DecidablePred Continues := fun x =>
  inferInstanceAs (Decidable (x.toNat.testBit 7 = true))

/-- The number whose digits are the low seven bits of the bytes, the lowest digit first. -/
def value (groups : Bytes) : Nat :=
  ∑ i : Fin groups.length, groups[i].toNat % 128 * 128 ^ (i : Nat)

theorem continues_iff {x : UInt8} : Continues x ↔ 128 ≤ x.toNat := by
  have byte := x.toNat_lt
  rw [Continues, Nat.testBit_eq_decide_div_mod_eq, decide_eq_true_iff]
  omega

theorem not_continues_iff {x : UInt8} : ¬ Continues x ↔ x.toNat < 128 := by
  rw [continues_iff, Nat.not_le]

theorem value_cons (x : UInt8) (groups : Bytes) :
    value (x :: groups) = x.toNat % 128 + 128 * value groups := by
  have shift : ∀ i : Fin groups.length,
      groups[i].toNat % 128 * 128 ^ ((i : Nat) + 1) =
        128 * (groups[i].toNat % 128 * 128 ^ (i : Nat)) := by
    intro i
    rw [pow_succ', Nat.mul_left_comm]
  calc value (x :: groups)
      = x.toNat % 128 * 128 ^ 0 +
          ∑ i : Fin groups.length, groups[i].toNat % 128 * 128 ^ ((i : Nat) + 1) :=
        Fin.sum_univ_succ _
    _ = x.toNat % 128 + 128 * value groups := by
        rw [pow_zero, Nat.mul_one, value, Finset.mul_sum]
        exact congrArg _ (Finset.sum_congr rfl fun i _ => shift i)

theorem spells_concat_iff {before : Bytes} {last : UInt8} {n : Nat} :
    Spells (before ++ [last]) n ↔
      (∀ x ∈ before, Continues x) ∧ ¬ Continues last ∧ n = value (before ++ [last]) := by
  induction before generalizing n with
  | nil =>
    have single : value [last] = last.toNat % 128 := by
      rw [value_cons]
      rfl
    rw [List.nil_append, single, not_continues_iff]
    constructor
    · rintro (small | ⟨-, rest⟩)
      · exact ⟨nofun, small, (Nat.mod_eq_of_lt small).symm⟩
      · cases rest
    · rintro ⟨-, small, rfl⟩
      rw [Nat.mod_eq_of_lt small]
      exact .last small
  | cons x before ih =>
    have digit : Continues x → x.toNat % 128 = x.toNat - 128 := by
      intro more
      have byte := x.toNat_lt
      rw [continues_iff] at more
      omega
    rw [List.cons_append, value_cons, List.forall_mem_cons]
    constructor
    · intro spelled
      generalize same : before ++ [last] = groups at spelled
      cases spelled with
      | last small => simp at same
      | more large rest =>
        subst same
        obtain ⟨each, stop, rfl⟩ := ih.1 rest
        have more := continues_iff.2 large
        exact ⟨⟨more, each⟩, stop, by rw [digit more]⟩
    · rintro ⟨⟨more, each⟩, stop, rfl⟩
      rw [digit more]
      exact .more (continues_iff.1 more) (ih.2 ⟨each, stop, rfl⟩)

theorem decodeGroups_eq_error {k : Nat} {s : Bytes} {e : WireError} :
    decodeGroups k s = .error e ↔ (∀ x ∈ s.take k, Continues x) ∧
      e = if k ≤ s.length then .malformedRemainingLength else .insufficientBytes 1 := by
  -- on the bytes that may still come: a byte that continues leaves one of them less
  induction k generalizing s with
  | zero => simp [decodeGroups, eq_comm]
  | succ k ih =>
    cases s with
    | nil => simp [decodeGroups, eq_comm]
    | cons x s =>
      simp only [List.take_succ_cons, List.forall_mem_cons, List.length_cons,
        Nat.add_le_add_iff_right]
      rw [decodeGroups]
      split
      · next small =>
        have stop : ¬ Continues x := not_continues_iff.2 (UInt8.lt_iff_toNat_lt.1 small)
        simp [stop]
      · next large =>
        have more : Continues x :=
          continues_iff.2 (Nat.not_lt.1 fun lt => large (UInt8.lt_iff_toNat_lt.2 lt))
        rw [and_iff_right more, ← ih]
        cases decodeGroups k s with
        | error e' => exact Iff.rfl
        | ok r => simp [bind, Except.bind, pure, Except.pure]

theorem decode_eq_ok {s : Bytes} {k v : Nat} :
    decode s = .ok (k, v) ↔ 1 ≤ k ∧ k ≤ 4 ∧ (∀ x ∈ s.take (k - 1), Continues x) ∧
      (∃ x, s[k - 1]? = some x ∧ ¬ Continues x) ∧ v = value (s.take k) := by
  constructor
  · intro h
    obtain ⟨groups, rest, rfl, rfl, few, spelled⟩ := spells_of_decodeGroups h
    obtain rfl | ⟨before, last, rfl⟩ := List.eq_nil_or_concat' groups
    · cases spelled
    · obtain ⟨each, stop, rfl⟩ := spells_concat_iff.1 spelled
      have end_ : (before ++ [last]).length - 1 = before.length := by simp
      refine ⟨by simp, few, ?_, ⟨last, ?_, stop⟩, by rw [List.take_left]⟩
      · rw [end_, List.append_assoc, List.take_left]
        exact each
      · rw [end_]
        simp
  · rintro ⟨some, few, each, ⟨last, there, stop⟩, rfl⟩
    have split : s.take k = s.take (k - 1) ++ [last] := by
      obtain ⟨j, rfl⟩ := Nat.exists_eq_add_of_le' some
      rw [List.take_add_one, ← Nat.add_sub_cancel j 1, there]
      rfl
    have inside : k - 1 < s.length := (List.getElem?_eq_some_iff.1 there).1
    have length : (s.take k).length = k := List.length_take_of_le (by omega)
    have spelled : Spells (s.take k) (value (s.take k)) := by
      rw [split]
      exact spells_concat_iff.2 ⟨each, stop, rfl⟩
    have read := spelled.decodeGroups_append (k := 4) (by omega) (s.drop k)
    rwa [List.take_append_drop, length] at read

/-- How a byte string starts as a number, and how a number is written: in the fewest bytes that are
read as it. -/
theorem decode_iff_continues (s : Bytes) :
    (∀ k v, decode s = .ok (k, v) ↔ 1 ≤ k ∧ k ≤ 4 ∧ (∀ x ∈ s.take (k - 1), Continues x) ∧
      (∃ x, s[k - 1]? = some x ∧ ¬ Continues x) ∧ v = value (s.take k)) ∧
    (decode s = .error .malformedRemainingLength ↔ 4 ≤ s.length ∧ ∀ x ∈ s.take 4, Continues x) ∧
    (decode s = .error (.insufficientBytes 1) ↔ s.length < 4 ∧ ∀ x ∈ s, Continues x) ∧
    ∀ v, v ≤ 268435455 → ∃ e, encode v = .ok e ∧ e.length = size v ∧
      (∀ rest, decode (e ++ rest) = .ok (e.length, v)) ∧
      ∀ k, decode s = .ok (k, v) → e.length ≤ k ∧ k ≤ s.length := by
  refine ⟨fun k v => decode_eq_ok, ?_, ?_, fun v fits => ?_⟩
  · rw [decode, decodeGroups_eq_error]
    split
    · next long => simp [long]
    · next short => simp [short]
  · rw [decode, decodeGroups_eq_error]
    split
    · next long => simp [long]
    · next short =>
      rw [List.take_of_length_le (by omega)]
      simp [Nat.not_le.1 short]
  · refine ⟨groups 4 v, encode_eq_ok.2 ⟨fits, rfl⟩, length_groups v, fun rest => ?_,
      fun k read => ?_⟩
    · rw [decode_groups fits, length_groups]
    · obtain ⟨some, few, there, below⟩ := bounds_of_decodeGroups read
      rw [length_groups]
      exact ⟨(size_le_of_lt_capacity some few below).1, there⟩

theorem decode_iff_continues_padded :
    2097151 ≤ 268435455 ∧ decode [255, 255, 255, 0, 9] = .ok (4, 2097151) ∧
      ∃ e, encode 2097151 = .ok e ∧ e.length = 3 ∧
        (∀ rest, decode (e ++ rest) = .ok (3, 2097151)) ∧ e.length ≤ 4 := by
  have padded : decode [255, 255, 255, 0, 9] = .ok (4, 2097151) := rfl
  obtain ⟨-, -, -, written⟩ := decode_iff_continues [255, 255, 255, 0, 9]
  obtain ⟨e, encoded, length, back, shortest⟩ := written 2097151 (by decide)
  refine ⟨by decide, padded, e, encoded, length, fun rest => ?_, (shortest 4 padded).1⟩
  rw [back, length]
  rfl

end MqttClient.VarInt
