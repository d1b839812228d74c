import MqttClient.Proofs.Wire.Surplus

/-! The block of properties is read out of its own bytes. Where an entry ends is told by its
identifier and by the lengths inside it, so that a block can be cut into entries in one way only.
The reader gives the properties of these entries, one for each and in their order, and refuses a
block that cannot be cut up. No entry takes less than two bytes, and the loop over the block is at
its end after half as many turns as the block has bytes. -/

namespace MqttClient

open Decoder

inductive Counted : (content : Bytes) → Bytes → Prop
  | mk {high low : UInt8} {content : Bytes}
    (length : content.length = (Bytes.toUInt16 high low).toNat) :
    Counted content (high :: low :: content)

def CountedText (s : String) (b : Bytes) : Prop :=
  ∃ content, Counted content b ∧ Bytes.toText? content = some s ∧ '\x00' ∉ s.toList

/-- A part of a value, by how its end is told. -/
inductive ValuePart
  | fixed (size : Nat)
  | counted
  | varInt

def ValuePart.Spans : ValuePart → Bytes → Prop
  | fixed size, b => b.length = size
  | counted, b => ∃ content, Counted content b
  | varInt, b => b.length ≤ 4 ∧ ∃ n, VarInt.Spells b n

namespace PropertyId

def codes : List UInt8 :=
  [1, 2, 3, 8, 9, 11, 17, 18, 19, 21, 22, 23, 24, 25, 26, 28, 31, 33, 34, 35, 36, 37, 38, 39, 40,
    41, 42]

def valueParts : PropertyId → List ValuePart
  | byte _ => [.fixed 1]
  | twoBytes _ => [.fixed 2]
  | fourBytes _ => [.fixed 4]
  | text _ | binary _ => [.counted]
  | subscriptionIdentifier => [.varInt]
  | userProperty => [.counted, .counted]

theorem mem_codes_iff {c : UInt8} : c ∈ codes ↔ ∃ id : PropertyId, id.code = c := by
  constructor
  · intro known
    obtain ⟨id, -, code⟩ := List.mem_map.1 (show c ∈ all.map code from known)
    exact ⟨id, code⟩
  · rintro ⟨id, rfl⟩
    cases id with
    | subscriptionIdentifier | userProperty => decide
    | byte id | twoBytes id | fourBytes id | text id | binary id => cases id <;> decide

theorem ofCode?_of_notMem {c : UInt8} (unknown : c ∉ codes) : ofCode? c = none := by
  cases h : ofCode? c with
  | none => rfl
  | some id => exact absurd (mem_codes_iff.2 ⟨id, code_of_ofCode? h⟩) unknown

theorem code_injective : Function.Injective code := by
  intro id id' same
  have found := ofCode?_code id
  rw [same, ofCode?_code] at found
  exact (Option.some.inj found).symm

end PropertyId

/-- The code of a property, and the parts of a value of its kind, whatever they hold. -/
inductive IsEntry : Bytes → Prop
  | mk (id : PropertyId) {parts : List Bytes}
    (value : List.Forall₂ ValuePart.Spans id.valueParts parts) : IsEntry (id.code :: parts.flatten)

/-- An entry starts with these bytes, and it goes on behind them. -/
def BreaksOff (part : Bytes) : Prop := part ≠ [] ∧ ∃ more, more ≠ [] ∧ IsEntry (part ++ more)

/-- The bytes are the value of the property. A number need not be in its shortest form. -/
inductive Property.HasValue : Property → Bytes → Prop
  | byte (id : ByteProperty) (x : UInt8) : HasValue (.byte id x) [x]
  | twoBytes (id : TwoByteProperty) (high low : UInt8) :
    HasValue (.twoBytes id (Bytes.toUInt16 high low)) [high, low]
  | fourBytes (id : FourByteProperty) (a b c d : UInt8) :
    HasValue (.fourBytes id (Bytes.toUInt32 a b c d)) [a, b, c, d]
  | text (id : TextProperty) {s : String} {v : Bytes} (counted : CountedText s v) :
    HasValue (.text id s) v
  | binary (id : BinaryProperty) {content v : Bytes} (counted : Counted content v) :
    HasValue (.binary id content) v
  | subscriptionIdentifier {groups : Bytes} {n : Nat} (few : groups.length ≤ 4)
    (spelled : VarInt.Spells groups n) : HasValue (.subscriptionIdentifier n) groups
  | userProperty {key value : String} {k v : Bytes} (first : CountedText key k)
    (second : CountedText value v) : HasValue (.userProperty key value) (k ++ v)

def Property.HasEntry (p : Property) (e : Bytes) : Prop := ∃ v, p.HasValue v ∧ e = p.id.code :: v

def Properties.AreListed (ps : Properties) (block : Bytes) : Prop :=
  ∃ entries, List.Forall₂ Property.HasEntry ps entries ∧ block = entries.flatten

theorem Counted.unique {content content' v w x y : Bytes} (hv : Counted content v)
    (hw : Counted content' w) (same : v ++ x = w ++ y) : v = w := by
  obtain ⟨length⟩ := hv
  obtain ⟨length'⟩ := hw
  simp only [List.cons_append, List.cons.injEq] at same
  obtain ⟨rfl, rfl, same⟩ := same
  rw [List.append_inj_left same (length.trans length'.symm)]

theorem VarInt.Spells.unique {v w x y : Bytes} {m n : Nat} (hv : Spells v m) (hw : Spells w n)
    (same : v ++ x = w ++ y) : v = w := by
  have read := hv.decodeGroups_append (Nat.le_max_left v.length w.length) x
  have read' := hw.decodeGroups_append (Nat.le_max_right v.length w.length) y
  rw [same, read'] at read
  exact List.append_inj_left same (Prod.mk.inj (Except.ok.inj read)).1.symm

theorem ValuePart.Spans.unique {part : ValuePart} {v w x y : Bytes} (hv : part.Spans v)
    (hw : part.Spans w) (same : v ++ x = w ++ y) : v = w := by
  cases part with
  | fixed size => exact List.append_inj_left same (Eq.trans hv (Eq.symm hw))
  | counted =>
    obtain ⟨_, hv⟩ := hv
    obtain ⟨_, hw⟩ := hw
    exact hv.unique hw same
  | varInt =>
    obtain ⟨-, _, hv⟩ := hv
    obtain ⟨-, _, hw⟩ := hw
    exact hv.unique hw same

theorem ValuePart.flatten_unique {parts : List ValuePart} {vs ws : List Bytes} {x y : Bytes}
    (hv : List.Forall₂ ValuePart.Spans parts vs) (hw : List.Forall₂ ValuePart.Spans parts ws)
    (same : vs.flatten ++ x = ws.flatten ++ y) : vs = ws := by
  induction hv generalizing ws with
  | nil =>
    cases hw
    rfl
  | cons first _ ih =>
    obtain _ | ⟨first', rest'⟩ := hw
    rw [List.flatten_cons, List.flatten_cons, List.append_assoc, List.append_assoc] at same
    obtain rfl := first.unique first' same
    rw [ih rest' (List.append_cancel_left same)]

namespace IsEntry

variable {d e x y : Bytes}

theorem ne_nil (h : IsEntry e) : e ≠ [] := by
  cases h
  exact List.cons_ne_nil _ _

theorem unique (hd : IsEntry d) (he : IsEntry e) (same : d ++ x = e ++ y) : d = e := by
  obtain ⟨id, hv⟩ := hd
  obtain ⟨id', hw⟩ := he
  rw [List.cons_append, List.cons_append, List.cons.injEq] at same
  obtain ⟨code, same⟩ := same
  obtain rfl := PropertyId.code_injective code
  rw [ValuePart.flatten_unique hv hw same]

theorem exists_later {whole entries : List Bytes} {part : Bytes} (hw : ∀ e ∈ whole, IsEntry e)
    (he : ∀ e ∈ entries, IsEntry e) (same : whole.flatten ++ part = entries.flatten) :
    ∃ later, entries = whole ++ later ∧ part = later.flatten := by
  -- Where entries are equal as bytes, they are equal one by one.
  induction whole generalizing entries with
  | nil => exact ⟨entries, rfl, same⟩
  | cons d whole ih =>
    obtain ⟨hd, hw⟩ := List.forall_mem_cons.1 hw
    cases entries with
    | nil => exact absurd (List.append_eq_nil_iff.1 (List.append_eq_nil_iff.1 same).1).1 hd.ne_nil
    | cons e entries =>
      obtain ⟨he, hes⟩ := List.forall_mem_cons.1 he
      rw [List.flatten_cons, List.flatten_cons, List.append_assoc] at same
      obtain rfl := hd.unique he same
      obtain ⟨later, rfl, rfl⟩ := ih hw hes (List.append_cancel_left same)
      exact ⟨later, rfl, rfl⟩

end IsEntry

theorem BreaksOff.ne_append {part e tail : Bytes} (h : BreaksOff part) (he : IsEntry e) :
    part ≠ e ++ tail := by
  rintro rfl
  obtain ⟨-, more, some, longer⟩ := h
  have same : e ++ (tail ++ more) = (e ++ tail ++ more) ++ [] := by simp
  have length := congrArg List.length (he.unique longer same)
  rw [List.length_append, List.length_append] at length
  exact some (List.length_eq_zero_iff.1 (by omega))

theorem IsEntry.code_mem {c : UInt8} {tail e rest : Bytes} (he : IsEntry e)
    (same : c :: tail = e ++ rest) : c ∈ PropertyId.codes := by
  obtain ⟨id, -⟩ := he
  rw [List.cons_append, List.cons.injEq] at same
  exact PropertyId.mem_codes_iff.2 ⟨id, same.1.symm⟩

namespace Property

variable {p : Property} {v e : Bytes}

theorem HasValue.spans (h : p.HasValue v) :
    ∃ parts, List.Forall₂ ValuePart.Spans p.id.valueParts parts ∧ v = parts.flatten := by
  cases h with
  | byte id x => exact ⟨[[x]], .cons rfl .nil, rfl⟩
  | twoBytes id high low => exact ⟨[[high, low]], .cons rfl .nil, rfl⟩
  | fourBytes id a b c d => exact ⟨[[a, b, c, d]], .cons rfl .nil, rfl⟩
  | text id counted =>
    obtain ⟨content, counted, -⟩ := counted
    exact ⟨[v], .cons ⟨content, counted⟩ .nil, List.flatten_singleton.symm⟩
  | binary id counted => exact ⟨[v], .cons ⟨_, counted⟩ .nil, List.flatten_singleton.symm⟩
  | subscriptionIdentifier few spelled =>
    exact ⟨[v], .cons ⟨few, _, spelled⟩ .nil, List.flatten_singleton.symm⟩
  | @userProperty _ _ k v first second =>
    obtain ⟨kc, first, -⟩ := first
    obtain ⟨vc, second, -⟩ := second
    exact ⟨[k, v], .cons ⟨kc, first⟩ (.cons ⟨vc, second⟩ .nil), by simp⟩

theorem HasEntry.isEntry (h : p.HasEntry e) : IsEntry e := by
  obtain ⟨v, value, rfl⟩ := h
  obtain ⟨parts, spans, rfl⟩ := value.spans
  exact ⟨p.id, spans⟩

theorem HasValue.length_pos (h : p.HasValue v) : 0 < v.length := by
  cases h with
  | byte | twoBytes | fourBytes => exact Nat.succ_pos _
  | text id counted =>
    obtain ⟨_, ⟨_⟩, -⟩ := counted
    exact Nat.succ_pos _
  | binary id counted =>
    obtain ⟨_⟩ := counted
    exact Nat.succ_pos _
  | subscriptionIdentifier few spelled => exact spelled.bounds.1
  | userProperty first second =>
    obtain ⟨_, ⟨_⟩, -⟩ := first
    exact Nat.succ_pos _

theorem HasEntry.two_le_length (h : p.HasEntry e) : 2 ≤ e.length := by
  obtain ⟨v, value, rfl⟩ := h
  exact Nat.succ_le_succ value.length_pos

end Property

namespace Decoder

variable {b rest : Bytes}

theorem twoBytes_eq_ok {w : UInt16} : twoBytes b = .ok (w, rest) ↔
    ∃ high low, w = Bytes.toUInt16 high low ∧ b = high :: low :: rest := by
  match b with
  | [] | [_] => exact ⟨nofun, fun ⟨_, _, _, h⟩ => nomatch h⟩
  | high :: low :: b =>
    constructor
    · rintro ⟨⟩
      exact ⟨high, low, rfl, rfl⟩
    · rintro ⟨_, _, rfl, ⟨⟩⟩
      rfl

theorem fourBytes_eq_ok {w : UInt32} : fourBytes b = .ok (w, rest) ↔
    ∃ a₀ a₁ a₂ a₃, w = Bytes.toUInt32 a₀ a₁ a₂ a₃ ∧ b = a₀ :: a₁ :: a₂ :: a₃ :: rest := by
  match b with
  | [] | [_] | [_, _] | [_, _, _] => exact ⟨nofun, fun ⟨_, _, _, _, _, h⟩ => nomatch h⟩
  | a₀ :: a₁ :: a₂ :: a₃ :: b =>
    constructor
    · rintro ⟨⟩
      exact ⟨a₀, a₁, a₂, a₃, rfl, rfl⟩
    · rintro ⟨_, _, _, _, rfl, ⟨⟩⟩
      rfl

theorem binary_eq_ok {x : Bytes} :
    binary b = .ok (x, rest) ↔ ∃ v, Counted x v ∧ b = v ++ rest := by
  simp only [binary, bind_eq_ok, twoBytes_eq_ok, span_eq_ok]
  constructor
  · rintro ⟨_, _, ⟨high, low, rfl, rfl⟩, length, rfl⟩
    exact ⟨_, ⟨length⟩, rfl⟩
  · rintro ⟨_, ⟨length⟩, rfl⟩
    exact ⟨_, _, ⟨_, _, rfl, rfl⟩, length, rfl⟩

theorem text_eq_ok {s : String} :
    text b = .ok (s, rest) ↔ ∃ v, CountedText s v ∧ b = v ++ rest := by
  simp only [text, bind_eq_ok, binary_eq_ok]
  constructor
  · rintro ⟨content, mid, ⟨v, counted, rfl⟩, h⟩
    cases utf8 : Bytes.toText? content with
    | none =>
      rw [utf8] at h
      cases h
    | some s' =>
      rw [utf8] at h
      simp only [ite_eq_ok, throw_eq_ok, pure_eq_ok, and_false, false_or] at h
      obtain ⟨plain, rfl, rfl⟩ := h
      exact ⟨v, ⟨content, counted, utf8, plain⟩, rfl⟩
  · rintro ⟨v, ⟨content, counted, utf8, plain⟩, rfl⟩
    refine ⟨content, rest, ⟨v, counted, rfl⟩, ?_⟩
    rw [utf8]
    simp only [if_neg plain]
    rfl

end Decoder

namespace Property

variable {b rest : Bytes} {p : Property}

theorem decodeValue_eq_ok {id : PropertyId} : decodeValue id b = .ok (p, rest) ↔
    ∃ v, p.id = id ∧ p.HasValue v ∧ b = v ++ rest := by
  constructor
  · intro h
    cases id with
    | byte id =>
      simp only [decodeValue, Decoder.bind_eq_ok, byte_eq_ok, pure_eq_ok] at h
      obtain ⟨x, _, rfl, rfl, rfl⟩ := h
      exact ⟨_, rfl, .byte id x, rfl⟩
    | twoBytes id =>
      simp only [decodeValue, Decoder.bind_eq_ok, twoBytes_eq_ok, pure_eq_ok] at h
      obtain ⟨_, _, ⟨high, low, rfl, rfl⟩, rfl, rfl⟩ := h
      exact ⟨_, rfl, .twoBytes id high low, rfl⟩
    | fourBytes id =>
      simp only [decodeValue, Decoder.bind_eq_ok, fourBytes_eq_ok, pure_eq_ok] at h
      obtain ⟨_, _, ⟨a₀, a₁, a₂, a₃, rfl, rfl⟩, rfl, rfl⟩ := h
      exact ⟨_, rfl, .fourBytes id a₀ a₁ a₂ a₃, rfl⟩
    | text id =>
      simp only [decodeValue, Decoder.bind_eq_ok, text_eq_ok, pure_eq_ok] at h
      obtain ⟨_, _, ⟨v, counted, rfl⟩, rfl, rfl⟩ := h
      exact ⟨v, rfl, .text id counted, rfl⟩
    | binary id =>
      simp only [decodeValue, Decoder.bind_eq_ok, binary_eq_ok, pure_eq_ok] at h
      obtain ⟨_, _, ⟨v, counted, rfl⟩, rfl, rfl⟩ := h
      exact ⟨v, rfl, .binary id counted, rfl⟩
    | subscriptionIdentifier =>
      simp only [decodeValue, Decoder.bind_eq_ok, varInt_eq_ok, pure_eq_ok] at h
      obtain ⟨_, _, ⟨groups, few, spelled, rfl⟩, rfl, rfl⟩ := h
      exact ⟨groups, rfl, .subscriptionIdentifier few spelled, rfl⟩
    | userProperty =>
      simp only [decodeValue, Decoder.bind_eq_ok, text_eq_ok, pure_eq_ok] at h
      obtain ⟨_, _, ⟨k, first, rfl⟩, _, _, ⟨v, second, rfl⟩, rfl, rfl⟩ := h
      exact ⟨k ++ v, rfl, .userProperty first second, (List.append_assoc k v _).symm⟩
  · rintro ⟨v, rfl, value, rfl⟩
    cases value with
    | byte id x =>
      simp only [Property.id, decodeValue, Decoder.bind_eq_ok, byte_eq_ok, pure_eq_ok]
      exact ⟨x, rest, rfl, rfl, rfl⟩
    | twoBytes id high low =>
      simp only [Property.id, decodeValue, Decoder.bind_eq_ok, twoBytes_eq_ok, pure_eq_ok]
      exact ⟨_, rest, ⟨high, low, rfl, rfl⟩, rfl, rfl⟩
    | fourBytes id a₀ a₁ a₂ a₃ =>
      simp only [Property.id, decodeValue, Decoder.bind_eq_ok, fourBytes_eq_ok, pure_eq_ok]
      exact ⟨_, rest, ⟨a₀, a₁, a₂, a₃, rfl, rfl⟩, rfl, rfl⟩
    | text id counted =>
      simp only [Property.id, decodeValue, Decoder.bind_eq_ok, text_eq_ok, pure_eq_ok]
      exact ⟨_, rest, ⟨v, counted, rfl⟩, rfl, rfl⟩
    | binary id counted =>
      simp only [Property.id, decodeValue, Decoder.bind_eq_ok, binary_eq_ok, pure_eq_ok]
      exact ⟨_, rest, ⟨v, counted, rfl⟩, rfl, rfl⟩
    | subscriptionIdentifier few spelled =>
      simp only [Property.id, decodeValue, Decoder.bind_eq_ok, varInt_eq_ok, pure_eq_ok]
      exact ⟨_, rest, ⟨v, few, spelled, rfl⟩, rfl, rfl⟩
    | @userProperty key value k v first second =>
      simp only [Property.id, decodeValue, Decoder.bind_eq_ok, text_eq_ok, pure_eq_ok]
      exact ⟨_, v ++ rest, ⟨k, first, List.append_assoc k v rest⟩, _, rest, ⟨v, second, rfl⟩, rfl,
        rfl⟩

theorem decode_eq_ok : decode b = .ok (p, rest) ↔ ∃ e, p.HasEntry e ∧ b = e ++ rest := by
  simp only [decode, Decoder.bind_eq_ok, byte_eq_ok]
  constructor
  · rintro ⟨c, mid, rfl, h⟩
    cases known : PropertyId.ofCode? c with
    | none =>
      rw [known] at h
      cases h
    | some id =>
      rw [known] at h
      obtain ⟨v, rfl, value, rfl⟩ := decodeValue_eq_ok.1 h
      rw [← PropertyId.code_of_ofCode? known]
      exact ⟨_, ⟨v, value, rfl⟩, rfl⟩
  · rintro ⟨_, ⟨v, value, rfl⟩, rfl⟩
    refine ⟨p.id.code, v ++ rest, rfl, ?_⟩
    rw [PropertyId.ofCode?_code]
    exact decodeValue_eq_ok.2 ⟨v, rfl, value, rfl⟩

theorem decode_of_notMem {c : UInt8} (unknown : c ∉ PropertyId.codes) (tail : Bytes) :
    decode (c :: tail) = .error (.invalidPropertyType c) := by
  have first : Decoder.byte (c :: tail) = .ok (c, tail) := rfl
  rw [decode, bind_apply, first]
  simp only [bind, Except.bind, PropertyId.ofCode?_of_notMem unknown]
  rfl

theorem length_of_decode (h : decode b = .ok (p, rest)) : rest.length + 2 ≤ b.length := by
  obtain ⟨e, entry, rfl⟩ := decode_eq_ok.1 h
  have two := entry.two_le_length
  rw [List.length_append]
  omega

end Property

namespace Properties

variable {ps acc : Properties} {b block rest : Bytes}

theorem AreListed.two_mul_length_le (h : AreListed ps block) : 2 * ps.length ≤ block.length := by
  obtain ⟨entries, each, rfl⟩ := h
  induction each with
  | nil => exact Nat.zero_le _
  | cons first _ ih =>
    have two := first.two_le_length
    rw [List.flatten_cons, List.length_append, List.length_cons]
    omega

theorem itemsLoop_of_areListed (h : AreListed ps block) (turns : Nat) (acc : Properties)
    (rest : Bytes) :
    itemsLoop Property.decode (ps.length + turns) acc (block ++ rest) =
      itemsLoop Property.decode turns (ps.reverse ++ acc) rest := by
  obtain ⟨entries, each, rfl⟩ := h
  induction each generalizing acc with
  | nil => simp
  | @cons p e ps entries first _ ih =>
    have read : Property.decode (e ++ (entries.flatten ++ rest)) =
        .ok (p, entries.flatten ++ rest) := Property.decode_eq_ok.2 ⟨e, first, rfl⟩
    have some : e ++ (entries.flatten ++ rest) ≠ [] :=
      List.append_ne_nil_of_left_ne_nil first.isEntry.ne_nil _
    rw [List.flatten_cons, List.append_assoc, List.length_cons, Nat.add_right_comm,
      itemsLoop_succ Property.decode _ acc some, read]
    change itemsLoop Property.decode (ps.length + turns) (p :: acc) (entries.flatten ++ rest) = _
    rw [ih, List.reverse_cons, List.append_assoc, List.singleton_append]

theorem areListed_of_itemsOf (h : ItemsOf Property.decode block ps) : AreListed ps block := by
  induction h with
  | nil => exact ⟨[], .nil, rfl⟩
  | cons _ first _ ih =>
    obtain ⟨e, entry, rfl⟩ := Property.decode_eq_ok.1 first
    obtain ⟨entries, each, rfl⟩ := ih
    exact ⟨e :: entries, .cons entry each, rfl⟩

theorem itemsLoop_of_length_le {m n : Nat} (hm : b.length ≤ 2 * m) (hn : b.length ≤ 2 * n) :
    itemsLoop Property.decode m acc b = itemsLoop Property.decode n acc b := by
  induction m generalizing n acc b with
  | zero =>
    obtain rfl : b = [] := List.length_eq_zero_iff.1 (by omega)
    rw [itemsLoop, itemsLoop]
  | succ m ih =>
    by_cases hb : b = []
    · subst hb
      rw [itemsLoop, itemsLoop]
    · have some := List.length_pos_iff.2 hb
      obtain ⟨n, rfl⟩ : ∃ j, n = j + 1 := ⟨n - 1, by omega⟩
      rw [itemsLoop_succ Property.decode m acc hb, itemsLoop_succ Property.decode n acc hb]
      cases read : Property.decode b with
      | error e => rfl
      | ok r =>
        -- an entry takes two bytes, so that both bounds outlast the block
        have two := Property.length_of_decode read
        exact ih (by omega) (by omega)

theorem items_eq_ok :
    items Property.decode block = .ok (ps, rest) ↔ rest = [] ∧ AreListed ps block := by
  constructor
  · intro h
    obtain ⟨rfl, listed⟩ := itemsOf_of_items h
    exact ⟨rfl, areListed_of_itemsOf listed⟩
  · rintro ⟨rfl, listed⟩
    have few := listed.two_mul_length_le
    have turns : block.length = ps.length + (block.length - ps.length) := by omega
    have run := itemsLoop_of_areListed listed (block.length - ps.length) [] []
    rw [← turns, List.append_nil] at run
    rw [items, run, itemsLoop]
    simp

theorem items_of_error {e : WireError} (listed : AreListed ps block) (some : rest ≠ [])
    (h : Property.decode rest = .error e) :
    items Property.decode (block ++ rest) = .error e := by
  have few := listed.two_mul_length_le
  have more := List.length_pos_iff.2 some
  have turns : (block ++ rest).length =
      ps.length + ((block ++ rest).length - ps.length - 1 + 1) := by
    rw [List.length_append]
    omega
  rw [items, turns, itemsLoop_of_areListed listed, itemsLoop_succ Property.decode _ _ some, h]
  rfl

theorem decode_of_size {count size : Nat} (start : VarInt.decode b = .ok (count, size)) :
    decode b = if b.length < count + size then .error (.boundaryCrossed size)
      else (items Property.decode ((b.drop count).take size)).map
        fun r => (r.1, b.drop (count + size)) := by
  obtain ⟨-, -, there, -⟩ := VarInt.bounds_of_decodeGroups start
  have number : varInt b = .ok (size, b.drop count) := by rw [varInt, start]
  have short : ((b.drop count).take size).length < size ↔ b.length < count + size := by
    rw [List.length_take, List.length_drop]
    omega
  rw [decode, bind_apply, number]
  change (span size >>= fun block => monadLift (within block (items Property.decode)))
    (b.drop count) = _
  rw [bind_apply, span]
  simp only [short]
  split
  · rfl
  · change (monadLift (within _ _) : Decoder Properties) _ = _
    rw [List.drop_drop, within]
    change (items Property.decode ((b.drop count).take size)).map _ >>= _ = _
    cases items Property.decode ((b.drop count).take size) <;> rfl

theorem AreListed.exists_entry {whole : List Bytes} {part : Bytes} (listed : AreListed ps block)
    (cut : block = whole.flatten ++ part) (entries : ∀ e ∈ whole, IsEntry e) (some : part ≠ []) :
    ∃ e tail, IsEntry e ∧ part = e ++ tail := by
  obtain ⟨all, each, rfl⟩ := listed
  have isEntry : ∀ e ∈ all, IsEntry e := by
    have both := each.imp fun p e entry => And.intro (Property.HasEntry.isEntry entry) entry
    exact ((List.forall₂_and_left all ps).1 both.flip).1
  obtain ⟨later, rfl, rfl⟩ := IsEntry.exists_later entries isEntry cut.symm
  cases later with
  | nil => exact absurd rfl some
  | cons e later => exact ⟨e, later.flatten, isEntry e (by simp), rfl⟩

/-- How a block is read that starts behind `count` bytes and is said to be `size` bytes long. -/
structure WithinBlock (b : Bytes) (count size : Nat) : Prop where
  /-- Both numbers are taken and no more, and each entry of the block gives one property. -/
  reads : ∀ ps rest, decode b = .ok (ps, rest) ↔
    count + size ≤ b.length ∧ rest = b.drop (count + size) ∧
      AreListed ps ((b.drop count).take size)
  /-- The same block gives the same, however its size is written and whatever follows it. -/
  blockAlone : ∀ ps rest b' count', decode b = .ok (ps, rest) →
    VarInt.decode b' = .ok (count', size) → (b'.drop count').take size = (b.drop count).take size →
      decode b' = .ok (ps, b'.drop (count' + size))
  short : b.length < count + size → decode b = .error (.boundaryCrossed size)
  overrun : ∀ (whole : List Bytes) part, (b.drop count).take size = whole.flatten ++ part →
    (∀ e ∈ whole, IsEntry e) → BreaksOff part → ∃ e, decode b = .error e
  unknown : ∀ (whole : List Bytes) c tail, (b.drop count).take size = whole.flatten ++ c :: tail →
    (∀ e ∈ whole, IsEntry e) → c ∉ PropertyId.codes → (∃ e, decode b = .error e) ∧
      (count + size ≤ b.length → (∃ ps, AreListed ps whole.flatten) →
        decode b = .error (.invalidPropertyType c))
  shrinks : ∀ part p rest, Property.decode part = .ok (p, rest) → rest.length + 2 ≤ part.length
  /-- The loop ends by itself: half as many turns as the block has bytes give what all do. -/
  ends : ∀ turns, size ≤ 2 * turns →
    itemsLoop Property.decode turns [] ((b.drop count).take size) =
      items Property.decode ((b.drop count).take size)

theorem decode_eq_ok {count size : Nat} (start : VarInt.decode b = .ok (count, size)) :
    decode b = .ok (ps, rest) ↔ count + size ≤ b.length ∧ rest = b.drop (count + size) ∧
      AreListed ps ((b.drop count).take size) := by
  rw [decode_of_size start]
  split
  · next short => exact ⟨nofun, fun h => absurd h.1 (Nat.not_le.2 short)⟩
  · next enough =>
    rw [and_iff_right (Nat.not_lt.1 enough)]
    constructor
    · intro h
      cases read : items Property.decode ((b.drop count).take size) with
      | error e =>
        rw [read] at h
        cases h
      | ok r =>
        rw [read] at h
        cases h
        exact ⟨rfl, (items_eq_ok.1 read).2⟩
    · rintro ⟨rfl, listed⟩
      rw [items_eq_ok.2 ⟨rfl, listed⟩]
      rfl

theorem error_of_no_entry {count size : Nat} (start : VarInt.decode b = .ok (count, size))
    {whole : List Bytes} {part : Bytes} (cut : (b.drop count).take size = whole.flatten ++ part)
    (entries : ∀ e ∈ whole, IsEntry e) (some : part ≠ [])
    (none : ∀ e tail, IsEntry e → part ≠ e ++ tail) : ∃ e, decode b = .error e := by
  cases read : decode b with
  | error e => exact ⟨e, rfl⟩
  | ok r =>
    obtain ⟨-, -, listed⟩ := (decode_eq_ok start).1 read
    obtain ⟨e, tail, entry, split⟩ := listed.exists_entry cut entries some
    exact absurd split (none e tail entry)

/-- No property takes bytes from outside the block. -/
theorem withinBlock_of_size {b : Bytes} {count size : Nat}
    (start : VarInt.decode b = .ok (count, size)) : WithinBlock b count size := by
  constructor
  case reads => exact fun ps rest => decode_eq_ok start
  case blockAlone =>
    intro ps rest b' count' read start' same
    obtain ⟨whole, -, listed⟩ := (decode_eq_ok start).1 read
    have length : ((b.drop count).take size).length = size := by
      rw [List.length_take, List.length_drop]
      omega
    obtain ⟨-, -, there, -⟩ := VarInt.bounds_of_decodeGroups start'
    have whole' : count' + size ≤ b'.length := by
      rw [← same, List.length_take, List.length_drop] at length
      omega
    exact (decode_eq_ok start').2 ⟨whole', rfl, same ▸ listed⟩
  case short =>
    intro short
    rw [decode_of_size start, if_pos short]
  case overrun =>
    intro whole part cut entries broken
    exact error_of_no_entry start cut entries broken.1 fun e tail entry => broken.ne_append entry
  case unknown =>
    intro whole c tail cut entries unknown
    refine ⟨?_, fun enough listed => ?_⟩
    · refine error_of_no_entry start cut entries (List.cons_ne_nil c tail) ?_
      exact fun e rest entry split => unknown (entry.code_mem split)
    · obtain ⟨ps, listed⟩ := listed
      have refused := Property.decode_of_notMem unknown tail
      rw [decode_of_size start, if_neg (Nat.not_lt.2 enough), cut,
        items_of_error listed (List.cons_ne_nil c tail) refused]
      rfl
  case shrinks => exact fun part p rest => Property.length_of_decode
  case ends =>
    intro turns half
    have length := List.length_take_le size (b.drop count)
    exact itemsLoop_of_length_le (by omega) (by omega)

theorem withinBlock_of_size_repeated :
    let block : Bytes := [38, 0, 1, 97, 0, 1, 49, 38, 0, 1, 97, 0, 1, 49, 19, 0, 10]
    let ps : Properties :=
      [.userProperty "a" "1", .userProperty "a" "1", .twoBytes .serverKeepAlive 10]
    VarInt.decode (17 :: block ++ [7]) = .ok (1, 17) ∧
      decode (17 :: block ++ [7]) = .ok (ps, [7]) ∧
      decode (145 :: 0 :: block ++ [31, 0]) = .ok (ps, [31, 0]) ∧
      (∃ e, decode [4, 31, 0, 5, 120, 121, 122] = .error e) ∧
      decode [5, 19, 0, 10, 4, 0] = .error (.invalidPropertyType 4) := by
  intro block ps
  have read : decode (17 :: block ++ [7]) = .ok (ps, [7]) := by
    unfold block ps
    rfl
  have again := (withinBlock_of_size (b := 17 :: block ++ [7]) rfl).blockAlone ps [7]
    (145 :: 0 :: block ++ [31, 0]) 2 read rfl rfl
  have crossing : BreaksOff [31, 0, 5, 120] :=
    ⟨by decide, [121, 122, 48, 49], by decide,
      IsEntry.mk (.text .reasonString) (.cons ⟨[120, 121, 122, 48, 49], ⟨rfl⟩⟩ .nil)⟩
  have keepAlive : (Property.twoBytes .serverKeepAlive 10).HasEntry [19, 0, 10] :=
    ⟨[0, 10], .twoBytes .serverKeepAlive 0 10, rfl⟩
  refine ⟨rfl, read, again, ?_, ?_⟩
  · exact (withinBlock_of_size (b := [4, 31, 0, 5, 120, 121, 122]) rfl).overrun [] _ rfl nofun
      crossing
  · have unknown := (withinBlock_of_size (b := [5, 19, 0, 10, 4, 0]) rfl).unknown [[19, 0, 10]] 4
      [0] rfl (by simpa using keepAlive.isEntry) (by decide)
    exact unknown.2 (by decide) ⟨_, [[19, 0, 10]], .cons keepAlive .nil, rfl⟩

end Properties

end MqttClient
