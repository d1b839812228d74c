import Mathlib.Data.List.Forall2
import MqttClient.Packet.Decode
import MqttClient.Proofs.Wire.Numbers

/-! What a reader makes of bytes that the matching writer made. The writers take every text, but no
reader takes one with the character zero, so what comes out of reading is known up to the texts: if
all of them are plain it is what was written, and otherwise a refusal for one of them. The rules
below carry this from the parts of a packet to the whole, one rule for each way in which readers are
put together. -/

namespace MqttClient

def Plain (texts : List String) : Prop := ∀ s ∈ texts, '\x00' ∉ s.toList

instance (texts : List String) : Decidable (Plain texts) :=
  inferInstanceAs (Decidable (∀ s ∈ texts, '\x00' ∉ s.toList))

@[simp] theorem plain_nil : Plain [] := by simp [Plain]

@[simp] theorem plain_append {t u : List String} : Plain (t ++ u) ↔ Plain t ∧ Plain u := by
  simp [Plain, or_imp, forall_and]

@[simp] theorem plain_cons {s : String} {t : List String} :
    Plain (s :: t) ↔ '\x00' ∉ s.toList ∧ Plain t := by
  simp [Plain]

theorem bind_eq_ok {ε α β : Type} {x : Except ε α} {f : α → Except ε β} {b : β} :
    x >>= f = .ok b ↔ ∃ a, x = .ok a ∧ f a = .ok b := by
  cases x with
  | error e => exact ⟨nofun, fun ⟨_, h, _⟩ => nomatch h⟩
  | ok a => exact ⟨fun h => ⟨a, rfl, h⟩, fun ⟨_, h, hf⟩ => by cases h; exact hf⟩

theorem mapM_eq_ok {ε α β : Type} {f : α → Except ε β} {l : List α} {out : List β} :
    l.mapM f = .ok out ↔ List.Forall₂ (fun a b => f a = .ok b) l out := by
  induction l generalizing out with
  | nil =>
    rw [List.mapM_nil, List.forall₂_nil_left_iff]
    exact ⟨fun h => by cases h; rfl, fun h => by rw [h]; rfl⟩
  | cons a l ih =>
    simp only [List.mapM_cons, bind_eq_ok, List.forall₂_cons_left_iff]
    constructor
    · rintro ⟨b, hb, bs, hbs, h⟩
      cases h
      exact ⟨b, bs, hb, ih.1 hbs, rfl⟩
    · rintro ⟨b, bs, hb, hbs, rfl⟩
      exact ⟨b, hb, bs, ih.2 hbs, rfl⟩

/-- A result that is known up to the texts that were read on the way to it. -/
structure Yields {γ : Type} (result outcome : Except WireError γ) (texts : List String) :
    Prop where
  accepts : Plain texts → result = outcome
  refuses : ¬ Plain texts → result = .error .notUtf8

namespace Yields

variable {γ δ : Type} {r o : Except WireError γ} {t u : List String}

theorem of_eq (h : r = o) : Yields r o [] := ⟨fun _ => h, fun no => absurd plain_nil no⟩

theorem bind {x : γ} {f : γ → Except WireError δ} {p : Except WireError δ}
    (hr : Yields r (.ok x) t) (hf : Yields (f x) p u) : Yields (r >>= f) p (t ++ u) := by
  constructor
  · intro plain
    rw [plain_append] at plain
    rw [hr.accepts plain.1]
    exact hf.accepts plain.2
  · intro no
    by_cases ht : Plain t
    · rw [hr.accepts ht]
      exact hf.refuses fun hu => no (plain_append.2 ⟨ht, hu⟩)
    · rw [hr.refuses ht]
      rfl

theorem map (h : Yields r o t) (f : γ → δ) : Yields (r.map f) (o.map f) t :=
  ⟨fun plain => by rw [h.accepts plain], fun no => by rw [h.refuses no]; rfl⟩

end Yields

namespace Decoder

variable {α β : Type}

/-- The reader makes `a` of the bytes and leaves what stands behind them. -/
def Reads (d : Decoder α) (b : Bytes) (a : α) (texts : List String) : Prop :=
  ∀ rest, Yields (d (b ++ rest)) (.ok (a, rest)) texts

def ReadsAll (d : Decoder α) (b : Bytes) (a : α) (texts : List String) : Prop :=
  Yields (d b) (.ok (a, [])) texts

section Rules

variable {d : Decoder α} {f : α → Decoder β} {b c : Bytes} {a : α} {y : β} {t u : List String}

theorem bind_apply (d : Decoder α) (f : α → Decoder β) (b : Bytes) :
    (d >>= f) b = d b >>= fun p => f p.1 p.2 := rfl

theorem Reads.of_eq (h : ∀ rest, d (b ++ rest) = .ok (a, rest)) : Reads d b a [] :=
  fun rest => .of_eq (h rest)

theorem Reads.pure (a : α) : Reads (Pure.pure a) [] a [] := .of_eq fun _ => rfl

theorem Reads.bind (hd : Reads d b a t) (hf : Reads (f a) c y u) :
    Reads (d >>= f) (b ++ c) y (t ++ u) := by
  intro rest
  rw [List.append_assoc, bind_apply]
  exact (hd _).bind (hf rest)

theorem Reads.bindYields {o : Except WireError (β × Bytes)} (hd : Reads d b a t)
    (hf : Yields (f a c) o u) : Yields ((d >>= f) (b ++ c)) o (t ++ u) := by
  rw [bind_apply]
  exact (hd c).bind hf

theorem Reads.bindAll (hd : Reads d b a t) (hf : ReadsAll (f a) c y u) :
    ReadsAll (d >>= f) (b ++ c) y (t ++ u) :=
  hd.bindYields hf

theorem Reads.all (h : Reads d b a t) : ReadsAll d b a t := by
  simpa [ReadsAll] using h []

theorem Reads.bindPlain (hd : Reads d b a []) (hf : Reads (f a) c y u) :
    Reads (d >>= f) (b ++ c) y u :=
  hd.bind hf

theorem Reads.bindPlainAll (hd : Reads d b a []) (hf : ReadsAll (f a) c y u) :
    ReadsAll (d >>= f) (b ++ c) y u :=
  hd.bindAll hf

theorem Reads.bindRest (hd : Reads d b a t) (hf : ReadsAll (f a) c y []) :
    ReadsAll (d >>= f) (b ++ c) y t := by
  simpa using hd.bindAll hf

theorem Reads.bindEmpty (hd : Reads d b a t) (hf : Reads (f a) [] y []) :
    Reads (d >>= f) b y t := by
  simpa using hd.bind hf

theorem ReadsAll.bindEmpty (hd : ReadsAll d b a t) (hf : Reads (f a) [] y []) :
    ReadsAll (d >>= f) b y t := by
  have : ReadsAll (d >>= f) b y (t ++ []) := Yields.bind hd (hf [])
  rwa [List.append_nil] at this

theorem Reads.bindPure (hd : Reads d b a t) (g : α → β) :
    Reads (d >>= fun x => Pure.pure (g x)) b (g a) t :=
  hd.bindEmpty (.pure (g a))

theorem Reads.map (h : Reads d b a t) (g : α → β) : Reads (g <$> d) b (g a) t := by
  intro rest
  have := (h rest).map fun p => (g p.1, p.2)
  rwa [show (g <$> d) (b ++ rest) = (d (b ++ rest)).map fun p => (g p.1, p.2) by
    change d (b ++ rest) >>= _ = _
    cases d (b ++ rest) <;> rfl]

theorem Reads.unless {p : Prop} [Decidable p] {e : Decoder α} (hp : ¬ p) (h : Reads d b a t) :
    Reads (if p then e else d) b a t := by
  rwa [if_neg hp]

theorem Reads.when {p : Prop} [Decidable p] {e : Decoder α} (hp : p) (h : Reads d b a t) :
    Reads (if p then d else e) b a t := by
  rwa [if_pos hp]

theorem Reads.lift {x : Except WireError α} (h : Yields x (.ok a) t) :
    Reads (liftM x : Decoder α) [] a t := by
  intro rest
  have := h.map (·, rest)
  rwa [show (liftM x : Decoder α) ([] ++ rest) = x.map (·, rest) by
    change x >>= _ = _
    cases x <;> rfl]

theorem bind_ite (p : Prop) [Decidable p] (d e : Decoder α) (k : α → Decoder β) :
    (if p then d >>= k else e >>= k) = (if p then d else e) >>= k := by
  split <;> rfl

theorem Reads.optional {absent : Prop} [Decidable absent] {o : Option α}
    {encode : α → Except WireError Bytes} {texts : α → List String} (ho : absent ↔ o = none)
    (hb : o.elim (.ok []) encode = .ok b)
    (hd : ∀ {x : α} {b : Bytes}, encode x = .ok b → Reads d b x (texts x)) :
    Reads (if absent then Pure.pure none else some <$> d) b o (o.elim [] texts) := by
  cases o with
  | none =>
    cases hb
    rw [if_pos (ho.2 rfl)]
    exact .pure none
  | some x =>
    rw [if_neg (by simp [ho])]
    exact (hd hb).map some

theorem ReadsAll.notAtEnd {e : Decoder α} (hb : b ≠ []) (h : ReadsAll d b a t) :
    ReadsAll (atEnd >>= fun last => if last = true then e else d) b a t := by
  cases b with
  | nil => exact absurd rfl hb
  | cons x b => exact h

theorem ReadsAll.isAtEnd {e : Decoder α} (h : ReadsAll e [] a t) :
    ReadsAll (atEnd >>= fun last => if last = true then e else d) [] a t := h

theorem ReadsAll.within (h : ReadsAll d b a t) : Yields (within b d) (.ok a) t := h.map (·.1)

theorem within_map (b : Bytes) (d : Decoder α) (g : α → β) :
    Decoder.within b (g <$> d) = (d b).map fun r => g r.1 := by
  change (d b >>= _).map _ = _
  cases d b <;> rfl

theorem ReadsAll.withinMap (h : ReadsAll d b a t) (g : α → β) :
    Yields (Decoder.within b (g <$> d)) (.ok (g a)) t := by
  rw [within_map]
  exact Yields.map h _

end Rules

theorem reads_byte (x : UInt8) : Reads byte [x] x [] := .of_eq fun _ => rfl

theorem reads_twoBytes (w : UInt16) : Reads twoBytes (Bytes.ofUInt16 w) w [] :=
  .of_eq fun rest => by
    change Except.ok (Bytes.toUInt16 _ _, rest) = _
    rw [Bytes.toUInt16_ofUInt16]

theorem reads_fourBytes (w : UInt32) : Reads fourBytes (Bytes.ofUInt32 w) w [] :=
  .of_eq fun rest => by
    change Except.ok (Bytes.toUInt32 _ _ _ _, rest) = _
    rw [Bytes.toUInt32_ofUInt32]

theorem reads_nonzeroId {id : UInt16} (h : id ≠ 0) : Reads nonzeroId (Bytes.ofUInt16 id) id [] :=
  (reads_twoBytes id).bind (.unless h (.pure id))

theorem reads_varInt {n : Nat} {b : Bytes} (h : VarInt.encode n = .ok b) : Reads varInt b n [] := by
  obtain ⟨fits, rfl⟩ := VarInt.encode_eq_ok.1 h
  apply Reads.of_eq
  intro rest
  rw [varInt, VarInt.decode_groups fits rest, ← VarInt.length_groups n]
  dsimp only
  rw [List.drop_left]

theorem reads_span (b : Bytes) : Reads (span b.length) b b [] :=
  .of_eq fun rest => by simp [span]

theorem encodeBinary_eq_ok {x b : Bytes} :
    encodeBinary x = .ok b ↔ x.length ≤ 65535 ∧ Bytes.ofUInt16 x.length.toUInt16 ++ x = b := by
  unfold encodeBinary
  split
  · next fits => simp [fits]
  · next long => simp [long]

theorem length_encodeBinary {x b : Bytes} (h : encodeBinary x = .ok b) :
    b.length = 2 + x.length := by
  obtain ⟨-, rfl⟩ := encodeBinary_eq_ok.1 h
  simp

theorem length_encodeText {s : String} {b : Bytes} (h : encodeText s = .ok b) :
    b.length = 2 + s.utf8ByteSize := by
  simpa using length_encodeBinary h

theorem reads_binary {x b : Bytes} (h : encodeBinary x = .ok b) : Reads binary b x [] := by
  obtain ⟨fits, rfl⟩ := encodeBinary_eq_ok.1 h
  have length : x.length.toUInt16.toNat = x.length := by simp; omega
  refine (reads_twoBytes _).bind ?_
  rw [length]
  exact reads_span x

theorem reads_text {s : String} {b : Bytes} (h : encodeText s = .ok b) : Reads text b s [s] := by
  intro rest
  have written := (reads_binary h rest).accepts plain_nil
  have result : text (b ++ rest) =
      if '\x00' ∈ s.toList then .error .notUtf8 else .ok (s, rest) := by
    rw [text, bind_apply, written]
    simp only [bind, Except.bind, Bytes.toText?_ofText]
    split <;> rfl
  rw [result]
  exact ⟨fun plain => if_neg (by simpa using plain), fun no => if_pos (by simpa using no)⟩

theorem reads_remaining (b : Bytes) : ReadsAll remaining b b [] := .of_eq rfl

theorem reads_reason {R : Type} [ReasonCode R] (refused : UInt8 → WireError) (r : R) :
    Yields (reasonOr refused (ReasonCode.code r)) (.ok r) [] :=
  .of_eq (by simp [reasonOr])

theorem reads_reasonList {R : Type} [ReasonCode R] (refused : UInt8 → WireError) (l : List R) :
    ReadsAll (reasonList refused) (l.map ReasonCode.code) l [] := by
  have codes : (l.map ReasonCode.code).mapM (reasonOr refused) = .ok l := by
    rw [mapM_eq_ok, List.forall₂_map_left_iff, List.forall₂_same]
    exact fun r _ => (reads_reason refused r).accepts plain_nil
  exact .of_eq (by rw [reasonList, codes]; rfl)

theorem length_flatten_eq_foldr {size : α → Nat} {xs : List α} {parts : List Bytes}
    (h : List.Forall₂ (fun x part => part.length = size x) xs parts) :
    parts.flatten.length = xs.foldr (size · + ·) 0 := by
  induction h with
  | nil => rfl
  | cons hx _ ih => rw [List.flatten_cons, List.length_append, hx, ih, List.foldr_cons]

theorem itemsLoop_succ (item : Decoder α) (fuel : Nat) (acc : List α) {b : Bytes} (hb : b ≠ []) :
    itemsLoop item (fuel + 1) acc b =
      item b >>= fun p => itemsLoop item fuel (p.1 :: acc) p.2 := by
  cases b with
  | nil => exact absurd rfl hb
  | cons x b =>
    rw [itemsLoop]
    · cases item (x :: b) <;> rfl
    · nofun

theorem reads_itemsLoop {item : Decoder α} {texts : α → List String} {xs : List α}
    {parts : List Bytes}
    (h : List.Forall₂ (fun x part => part ≠ [] ∧ Reads item part x (texts x)) xs parts)
    {fuel : Nat} (hf : parts.flatten.length ≤ fuel) (acc : List α) :
    Yields (itemsLoop item fuel acc parts.flatten) (.ok (acc.reverse ++ xs, []))
      (xs.flatMap texts) := by
  induction h generalizing fuel acc with
  | nil => exact .of_eq (by rw [List.flatten_nil, itemsLoop, List.append_nil])
  | @cons x part xs parts hx _ ih =>
    rw [List.flatten_cons, List.length_append] at hf
    have some := List.length_pos_iff.2 hx.1
    -- each item takes a byte of the fuel at least
    obtain ⟨fuel, rfl⟩ : ∃ n, fuel = n + 1 := ⟨fuel - 1, by omega⟩
    rw [List.flatten_cons, itemsLoop_succ item fuel acc (by simp [hx.1]), List.flatMap_cons]
    refine (hx.2 parts.flatten).bind ?_
    simpa using ih (by omega) (x :: acc)

theorem reads_items {item : Decoder α} {texts : α → List String} {xs : List α}
    {parts : List Bytes}
    (h : List.Forall₂ (fun x part => part ≠ [] ∧ Reads item part x (texts x)) xs parts) :
    ReadsAll (items item) parts.flatten xs (xs.flatMap texts) := by
  exact reads_itemsLoop h (Nat.le_refl _) []

end Decoder

end MqttClient
