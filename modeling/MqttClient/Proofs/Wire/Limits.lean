import MqttClient.Proofs.Wire.RoundTrip

/-! Which packets are refused when they are written: those whose identifier or list of filters the
protocol does not allow, those with a field that is too large for the number in front of it, and
those whose body is too long as a whole. Nothing else is refused. In particular the length of a list
of properties never is: if it did not fit, neither would the length of the body. -/

namespace MqttClient

inductive LimitedField
  | text (s : String)
  | binary (b : Bytes)
  | subscriptionIdentifier (n : Nat)

namespace LimitedField

def Exceeds : LimitedField → Prop
  | text s => 65535 < s.utf8ByteSize
  | binary b => 65535 < b.length
  | subscriptionIdentifier n => VarInt.maxValue < n

def text? : LimitedField → Option String
  | text s => some s
  | _ => none

end LimitedField

/-- What is written is refused for one of the fields, and for nothing else. -/
def Limited {α : Type} (written : Except WireError α) (fields : List LimitedField) : Prop :=
  (∃ a, written = .ok a) ↔ ∀ f ∈ fields, ¬ f.Exceeds

namespace Limited

variable {α β : Type} {x : Except WireError α} {f : α → Except WireError β}
  {t u : List LimitedField}

theorem of_ok (a : α) : Limited (.ok a) [] := ⟨fun _ => nofun, fun _ => ⟨a, rfl⟩⟩

theorem bind (hx : Limited x t) (hf : ∀ a, Limited (f a) u) : Limited (x >>= f) (t ++ u) := by
  unfold Limited at *
  rw [List.forall_mem_append, ← hx]
  constructor
  · rintro ⟨b, hb⟩
    obtain ⟨a, ha, hb⟩ := bind_eq_ok.1 hb
    exact ⟨⟨a, ha⟩, (hf a).1 ⟨b, hb⟩⟩
  · rintro ⟨⟨a, rfl⟩, small⟩
    exact (hf a).2 small

theorem bindPure (hx : Limited x t) (g : α → β) : Limited (x >>= fun a => pure (g a)) t := by
  have := hx.bind fun a => of_ok (g a)
  rwa [List.append_nil] at this

theorem mapM {fields : α → List LimitedField} (h : ∀ a, Limited (f a) (fields a)) (l : List α) :
    Limited (l.mapM f) (l.flatMap fields) := by
  induction l with
  | nil => exact of_ok []
  | cons a l ih =>
    rw [List.mapM_cons, List.flatMap_cons]
    exact (h a).bind fun _ => ih.bindPure _

theorem optional {encode : α → Except WireError Bytes} {fields : α → List LimitedField}
    (h : ∀ a, Limited (encode a) (fields a)) (o : Option α) :
    Limited (o.elim (.ok []) encode) (o.elim [] fields) := by
  cases o with
  | none => exact of_ok []
  | some a => exact h a

end Limited

theorem limited_encodeBinary (b : Bytes) : Limited (encodeBinary b) [.binary b] := by
  simp [Limited, LimitedField.Exceeds, Decoder.encodeBinary_eq_ok]

theorem limited_encodeText (s : String) : Limited (encodeText s) [.text s] := by
  simp [Limited, LimitedField.Exceeds, encodeText, Decoder.encodeBinary_eq_ok]

theorem VarInt.limited_encode (n : Nat) : Limited (encode n) [.subscriptionIdentifier n] := by
  simp [Limited, LimitedField.Exceeds, encode_eq_ok]

theorem VarInt.limited_of_le {n : Nat} (fits : n ≤ maxValue) : Limited (encode n) [] := by
  rw [encode, if_pos fits]
  exact .of_ok _

namespace Property

def fields : Property → List LimitedField
  | text _ value => [.text value]
  | binary _ value => [.binary value]
  | subscriptionIdentifier value => [.subscriptionIdentifier value]
  | userProperty key value => [.text key, .text value]
  | _ => []

theorem texts_eq (p : Property) : p.texts = p.fields.filterMap LimitedField.text? := by
  cases p <;> rfl

theorem limited_encode (p : Property) : Limited p.encode p.fields := by
  refine Limited.bindPure ?_ _
  cases p with
  | byte id value | twoBytes id value | fourBytes id value => exact .of_ok _
  | text id value => exact limited_encodeText value
  | binary id value => exact limited_encodeBinary value
  | subscriptionIdentifier value => exact VarInt.limited_encode value
  | userProperty key value =>
    exact (limited_encodeText key).bind fun _ => (limited_encodeText value).bindPure _

end Property

namespace Properties

def fields (ps : Properties) : List LimitedField := ps.flatMap Property.fields

theorem texts_eq (ps : Properties) : ps.texts = ps.fields.filterMap LimitedField.text? := by
  rw [texts, fields, List.filterMap_flatMap, funext Property.texts_eq]

theorem limited_encode {ps : Properties} (fits : ps.size ≤ VarInt.maxValue) :
    Limited (encode ps) ps.fields := by
  have block : ps.blockSize ≤ VarInt.maxValue := Nat.le_of_add_left_le fits
  exact (VarInt.limited_of_le block).bind fun _ =>
    (Limited.mapM Property.limited_encode ps).bindPure _

end Properties

namespace LastWill

def fields (w : LastWill) : List LimitedField :=
  Properties.fields w.properties ++ [.text w.topic, .binary w.message]

theorem texts_eq (w : LastWill) : w.texts = w.fields.filterMap LimitedField.text? := by
  rw [texts, fields, List.filterMap_append, Properties.texts_eq]
  rfl

theorem limited_encode {w : LastWill} (fits : w.size ≤ VarInt.maxValue) :
    Limited w.encode w.fields := by
  have properties : w.properties.size ≤ VarInt.maxValue := by
    unfold size at fits
    omega
  refine (Properties.limited_encode properties).bind fun _ => ?_
  exact (limited_encodeText w.topic).bind fun _ => (limited_encodeBinary w.message).bindPure _

end LastWill

namespace Connect

def fields (p : Connect) : List LimitedField :=
  Properties.fields p.properties ++ (.text p.clientId :: (p.lastWill.elim [] LastWill.fields ++
    (p.username.elim [] ([.text ·]) ++ p.password.elim [] ([.binary ·]))))

theorem texts_eq (p : Connect) : p.texts = p.fields.filterMap LimitedField.text? := by
  have will : p.lastWill.elim [] LastWill.texts =
      (p.lastWill.elim [] LastWill.fields).filterMap LimitedField.text? := by
    cases p.lastWill with
    | none => rfl
    | some w => exact w.texts_eq
  have username : p.username.elim [] ([·]) =
      (p.username.elim [] ([LimitedField.text ·])).filterMap LimitedField.text? := by
    cases p.username <;> rfl
  have password : (p.password.elim [] ([LimitedField.binary ·])).filterMap LimitedField.text? =
      [] := by
    cases p.password <;> rfl
  simp [texts, fields, will, username, password, Properties.texts_eq, LimitedField.text?]

theorem limited_encodeBody {p : Connect} (fits : p.bodySize ≤ VarInt.maxValue) :
    Limited p.encodeBody p.fields := by
  unfold bodySize at fits
  have properties : p.properties.size ≤ VarInt.maxValue := by omega
  have will : p.lastWill.elim 0 LastWill.size ≤ VarInt.maxValue := by omega
  have name : Limited (encodeText protocolName) [] := .of_ok _
  refine name.bind fun _ => (Properties.limited_encode properties).bind fun _ => ?_
  refine (limited_encodeText p.clientId).bind fun _ => Limited.bind ?_ fun _ => ?_
  · cases h : p.lastWill with
    | none => exact .of_ok []
    | some w =>
      rw [h] at will
      exact LastWill.limited_encode will
  · refine (Limited.optional limited_encodeText p.username).bind fun _ => ?_
    exact (Limited.optional limited_encodeBinary p.password).bindPure _

end Connect

namespace ConnAck

theorem limited_encodeBody {p : ConnAck} (fits : p.bodySize ≤ VarInt.maxValue) :
    Limited p.encodeBody (Properties.fields p.properties) := by
  unfold bodySize at fits
  exact (Properties.limited_encode (by omega)).bindPure _

end ConnAck

namespace Publish

theorem limited_encodeBody {p : Publish} (fits : p.bodySize ≤ VarInt.maxValue) :
    Limited p.encodeBody (.text p.topic :: Properties.fields p.properties) := by
  unfold bodySize at fits
  refine (limited_encodeText p.topic).bind fun _ => ?_
  exact (Properties.limited_encode (by omega)).bindPure _

end Publish

namespace Ack

variable {R : Type} [ReasonCode R]

theorem limited_encodeBody {a : Ack R} (fits : a.bodySize ≤ VarInt.maxValue) :
    Limited a.encodeBody (Properties.fields a.properties) := by
  unfold bodySize at fits
  unfold encodeBody
  split at fits
  · next none =>
    rw [if_pos none, List.isEmpty_iff.1 none]
    exact .of_ok _
  · next some =>
    rw [if_neg some]
    exact (Properties.limited_encode (by omega)).bindPure _

end Ack

theorem Filter.limited_encode (f : Filter) : Limited f.encode [.text f.path] :=
  (limited_encodeText f.path).bindPure _

namespace Subscribe

theorem limited_encodeBody {p : Subscribe} (fits : p.bodySize ≤ VarInt.maxValue) :
    Limited p.encodeBody
      (Properties.fields p.properties ++ p.filters.flatMap fun f => [.text f.path]) := by
  unfold bodySize at fits
  refine (Properties.limited_encode (by omega)).bind fun _ => ?_
  exact (Limited.mapM Filter.limited_encode p.filters).bindPure _

end Subscribe

namespace SubAck

theorem limited_encodeBody {p : SubAck} (fits : p.bodySize ≤ VarInt.maxValue) :
    Limited p.encodeBody (Properties.fields p.properties) := by
  unfold bodySize at fits
  exact (Properties.limited_encode (by omega)).bindPure _

end SubAck

namespace Unsubscribe

theorem limited_encodeBody {p : Unsubscribe} (fits : p.bodySize ≤ VarInt.maxValue) :
    Limited p.encodeBody
      (Properties.fields p.properties ++ p.filters.flatMap fun f => [.text f]) := by
  unfold bodySize at fits
  refine (Properties.limited_encode (by omega)).bind fun _ => ?_
  exact (Limited.mapM limited_encodeText p.filters).bindPure _

end Unsubscribe

namespace UnsubAck

theorem limited_encodeBody {p : UnsubAck} (fits : p.bodySize ≤ VarInt.maxValue) :
    Limited p.encodeBody (Properties.fields p.properties) := by
  unfold bodySize at fits
  exact (Properties.limited_encode (by omega)).bindPure _

end UnsubAck

namespace Disconnect

theorem limited_encodeBody {p : Disconnect} (fits : p.bodySize ≤ VarInt.maxValue) :
    Limited p.encodeBody (Properties.fields p.properties) := by
  unfold bodySize at fits
  unfold encodeBody
  split at fits
  · next none =>
    rw [if_pos none, List.isEmpty_iff.1 none]
    exact .of_ok _
  · next some =>
    rw [if_neg some]
    exact (Properties.limited_encode (by omega)).bindPure _

end Disconnect

namespace Packet

/-- Every field of a packet that is limited, those of its properties and of a will among them. -/
def fields : Packet → List LimitedField
  | connect p => p.fields
  | connAck p => Properties.fields p.properties
  | publish p => .text p.topic :: Properties.fields p.properties
  | pubAck p | pubRec p => Properties.fields p.properties
  | pubRel p | pubComp p => Properties.fields p.properties
  | subscribe p => Properties.fields p.properties ++ p.filters.flatMap fun f => [.text f.path]
  | subAck p => Properties.fields p.properties
  | unsubscribe p => Properties.fields p.properties ++ p.filters.flatMap fun f => [.text f]
  | unsubAck p => Properties.fields p.properties
  | pingReq | pingResp => []
  | disconnect p => Properties.fields p.properties

theorem texts_eq (p : Packet) : p.texts = p.fields.filterMap LimitedField.text? := by
  cases p with
  | connect p => exact p.texts_eq
  | publish p => exact congrArg (p.topic :: ·) (Properties.texts_eq p.properties)
  | subscribe p =>
    rw [texts, fields, Subscribe.texts, List.filterMap_append, List.filterMap_flatMap,
      Properties.texts_eq]
    rfl
  | unsubscribe p =>
    rw [texts, fields, Unsubscribe.texts, List.filterMap_append, List.filterMap_flatMap,
      Properties.texts_eq]
    rfl
  | pingReq | pingResp => rfl
  | connAck p | pubAck p | pubRec p | pubRel p | pubComp p | subAck p | unsubAck p | disconnect p =>
    exact Properties.texts_eq p.properties

theorem limited_encodeBody {p : Packet} (fits : p.bodySize ≤ VarInt.maxValue) :
    Limited p.encodeBody p.fields := by
  cases p with
  | connect p => exact p.limited_encodeBody fits
  | connAck p => exact p.limited_encodeBody fits
  | publish p => exact p.limited_encodeBody fits
  | pubAck p | pubRec p | pubRel p | pubComp p => exact p.limited_encodeBody fits
  | subscribe p => exact p.limited_encodeBody fits
  | subAck p => exact p.limited_encodeBody fits
  | unsubscribe p => exact p.limited_encodeBody fits
  | unsubAck p => exact p.limited_encodeBody fits
  | pingReq | pingResp => exact .of_ok []
  | disconnect p => exact p.limited_encodeBody fits

/-- The packet has an identifier that it may not have, or lacks one, or lists no filter. -/
inductive Improper : Packet → Prop
  | superfluousId {p : Publish} (qos : p.qos = .atMostOnce) (id : p.packetId ≠ 0) :
    Improper (publish p)
  | publish {p : Publish} (qos : p.qos ≠ .atMostOnce) (id : p.packetId = 0) : Improper (publish p)
  | pubAck {p : Ack PublishReason} (id : p.packetId = 0) : Improper (pubAck p)
  | pubRec {p : Ack PublishReason} (id : p.packetId = 0) : Improper (pubRec p)
  | pubRel {p : Ack ReleaseReason} (id : p.packetId = 0) : Improper (pubRel p)
  | pubComp {p : Ack ReleaseReason} (id : p.packetId = 0) : Improper (pubComp p)
  | subscribe {p : Subscribe} (h : p.filters = [] ∨ p.packetId = 0) : Improper (subscribe p)
  | unsubscribe {p : Unsubscribe} (h : p.filters = [] ∨ p.packetId = 0) : Improper (unsubscribe p)

theorem checkPacketId_eq_ok {p : Publish} :
    p.checkPacketId = .ok () ↔ (p.packetId = 0 ↔ p.qos = .atMostOnce) := by
  unfold Publish.checkPacketId
  cases h : p.qos <;> by_cases id : p.packetId = 0 <;> simp [id]

theorem check_of_proper {p : Packet} (h : ¬ p.Improper) : p.check = .ok () := by
  cases p with
  | publish p =>
    refine checkPacketId_eq_ok.2 ⟨fun id => ?_, fun qos => ?_⟩
    · by_contra qos
      exact h (.publish qos id)
    · by_contra id
      exact h (.superfluousId qos id)
  | pubAck p => exact nonzeroId_eq_ok.2 fun id => h (.pubAck id)
  | pubRec p => exact nonzeroId_eq_ok.2 fun id => h (.pubRec id)
  | pubRel p => exact nonzeroId_eq_ok.2 fun id => h (.pubRel id)
  | pubComp p => exact nonzeroId_eq_ok.2 fun id => h (.pubComp id)
  | subscribe p =>
    exact check_of_listed (fun none => h (.subscribe (.inl none)))
      fun id => h (.subscribe (.inr id))
  | unsubscribe p =>
    exact check_of_listed (fun none => h (.unsubscribe (.inl none)))
      fun id => h (.unsubscribe (.inr id))
  | connect | connAck | subAck | unsubAck | pingReq | pingResp | disconnect => rfl

theorem proper_of_check {p : Packet} (h : p.check = .ok ()) : ¬ p.Improper := by
  intro improper
  cases improper with
  | superfluousId qos id => exact id ((checkPacketId_eq_ok.1 h).2 qos)
  | publish qos id => exact qos ((checkPacketId_eq_ok.1 h).1 id)
  | pubAck id | pubRec id | pubRel id | pubComp id => exact nonzeroId_eq_ok.1 h id
  | subscribe none | unsubscribe none =>
    obtain ⟨some, id⟩ := listed_of_check h
    exact none.elim some id

inductive BeyondLimits (p : Packet) : Prop
  | improper (h : p.Improper)
  | field {f : LimitedField} (mem : f ∈ p.fields) (exceeds : f.Exceeds)
  | body (long : VarInt.maxValue < p.bodySize)

theorem encode_refused_iff (p : Packet) : (∃ e, p.encode = .error e) ↔ p.BeyondLimits := by
  constructor
  · rintro ⟨e, refused⟩
    by_contra within
    have check := check_of_proper fun h => within (.improper h)
    have fits : p.bodySize ≤ VarInt.maxValue := Nat.not_lt.1 fun long => within (.body long)
    obtain ⟨body, written⟩ :=
      (limited_encodeBody fits).2 fun f mem exceeds => within (.field mem exceeds)
    have encoded := encode_eq_ok.2 ⟨check, fits, body, written, rfl⟩
    cases refused.symm.trans encoded
  · intro beyond
    cases h : p.encode with
    | error e => exact ⟨e, rfl⟩
    | ok b =>
      obtain ⟨check, fits, body, written, -⟩ := encode_eq_ok.1 h
      cases beyond with
      | improper improper => exact absurd improper (proper_of_check check)
      | field mem exceeds =>
        exact absurd exceeds ((limited_encodeBody fits).1 ⟨body, written⟩ _ mem)
      | body long => exact absurd fits (Nat.not_le.2 long)

end Packet

end MqttClient
