import MqttClient.Proofs.Wire.RoundTrip
import MqttClient.Proofs.Wire.Framing

/-! Writing a packet straight into the buffer, one field behind the other. A field that is refused
leaves those in front of it in the buffer, which is then cut back to the length that it had. This
comes to the same as writing the packet apart and adding it as a whole: either the buffer is as it
was, or what was added is the whole frame of the packet, whatever stood in front of it. -/

namespace MqttClient

/-- Puts bytes behind what the buffer holds. They stay there if something later is refused. -/
abbrev Filler := ExceptT WireError (StateM Bytes)

namespace Filler

def put (b : Bytes) : Filler Unit := modify (· ++ b)

def made {α : Type} (x : Except WireError α) : Filler α := ExceptT.mk (pure x)

def field (x : Except WireError Bytes) : Filler Unit := do put (← made x)

def provided (p : Prop) [Decidable p] (m : Filler Unit) : Filler Unit := if p then m else pure ()

theorem run_put (b buffer : Bytes) : (put b).run buffer = (.ok (), buffer ++ b) := rfl

theorem run_made {α : Type} (x : Except WireError α) (buffer : Bytes) :
    (made x).run buffer = (x, buffer) := rfl

theorem run_bind {α β : Type} (m : Filler α) (f : α → Filler β) (buffer : Bytes) :
    (m >>= f).run buffer =
      match m.run buffer with
      | (.ok a, filled) => (f a).run filled
      | (.error e, filled) => (.error e, filled) := by
  unfold ExceptT.run
  simp only [bind, ExceptT.bind, ExceptT.mk, StateT.bind]
  rcases m buffer with ⟨e | a, filled⟩ <;> rfl

end Filler

open Filler

namespace Property

def fillValue : Property → Filler Unit
  | byte _ value => put [value]
  | twoBytes _ value => put (Bytes.ofUInt16 value)
  | fourBytes _ value => put (Bytes.ofUInt32 value)
  | text _ value => field (encodeText value)
  | binary _ value => field (encodeBinary value)
  | subscriptionIdentifier value => field (VarInt.encode value)
  | userProperty key value => do
    field (encodeText key)
    field (encodeText value)

def fill (p : Property) : Filler Unit := do
  put [p.id.code]
  p.fillValue

end Property

def Properties.fill (ps : Properties) : Filler Unit := do
  field (VarInt.encode ps.blockSize)
  ps.forM Property.fill

def LastWill.fill (w : LastWill) : Filler Unit := do
  Properties.fill w.properties
  field (encodeText w.topic)
  field (encodeBinary w.message)

def Connect.fillBody (p : Connect) : Filler Unit := do
  field (encodeText protocolName)
  put [protocolLevel]
  put [p.flags]
  put (Bytes.ofUInt16 p.keepAlive)
  Properties.fill p.properties
  field (encodeText p.clientId)
  p.lastWill.forM LastWill.fill
  p.username.forM fun username => field (encodeText username)
  p.password.forM fun password => field (encodeBinary password)

def ConnAck.fillBody (p : ConnAck) : Filler Unit := do
  put [p.sessionPresent.toUInt8]
  put [ReasonCode.code p.code]
  Properties.fill p.properties

def Publish.fillBody (p : Publish) : Filler Unit := do
  field (encodeText p.topic)
  provided (p.qos ≠ .atMostOnce) (put (Bytes.ofUInt16 p.packetId))
  Properties.fill p.properties
  put p.payload

/-- The parts that may be left out are put if the body was said to be long enough for them. -/
def Ack.fillBody {R : Type} [ReasonCode R] (a : Ack R) : Filler Unit := do
  put (Bytes.ofUInt16 a.packetId)
  provided (2 < a.bodySize) (put [ReasonCode.code a.reason])
  provided (3 < a.bodySize) (Properties.fill a.properties)

def Filter.fill (f : Filter) : Filler Unit := do
  field (encodeText f.path)
  put [f.options]

def Subscribe.fillBody (p : Subscribe) : Filler Unit := do
  put (Bytes.ofUInt16 p.packetId)
  Properties.fill p.properties
  p.filters.forM Filter.fill

def SubAck.fillBody (p : SubAck) : Filler Unit := do
  put (Bytes.ofUInt16 p.packetId)
  Properties.fill p.properties
  p.returnCodes.forM fun code => put [ReasonCode.code code]

def Unsubscribe.fillBody (p : Unsubscribe) : Filler Unit := do
  put (Bytes.ofUInt16 p.packetId)
  Properties.fill p.properties
  p.filters.forM fun filter => field (encodeText filter)

def UnsubAck.fillBody (p : UnsubAck) : Filler Unit := do
  put (Bytes.ofUInt16 p.packetId)
  Properties.fill p.properties
  p.reasons.forM fun reason => put [ReasonCode.code reason]

def Disconnect.fillBody (p : Disconnect) : Filler Unit := do
  provided (0 < p.bodySize) (put [ReasonCode.code p.reason])
  provided (1 < p.bodySize) (Properties.fill p.properties)

namespace Packet

def fillBody : Packet → Filler Unit
  | connect p => p.fillBody
  | connAck p => p.fillBody
  | publish p => p.fillBody
  | pubAck p | pubRec p => p.fillBody
  | pubRel p | pubComp p => p.fillBody
  | subscribe p => p.fillBody
  | subAck p => p.fillBody
  | unsubscribe p => p.fillBody
  | unsubAck p => p.fillBody
  | pingReq | pingResp => pure ()
  | disconnect p => p.fillBody

def fill (p : Packet) : Filler Nat := do
  made p.check
  put [p.firstByte]
  let length ← made (VarInt.encode p.bodySize)
  put length
  p.fillBody
  return 1 + length.length + p.bodySize

/-- What a packet that is refused has put into the buffer is taken off again. -/
def writeInPlace (p : Packet) (buffer : Bytes) : Except WireError Nat × Bytes :=
  match p.fill.run buffer with
  | (.ok size, filled) => (.ok size, filled)
  | (.error e, filled) => (.error e, filled.take buffer.length)

end Packet

/-- Either all of what is written was put into the buffer, or it is refused and a part was put. -/
def Fills (m : Filler Unit) (written : Except WireError Bytes) : Prop :=
  ∀ buffer : Bytes, (∃ b, written = .ok b ∧ m.run buffer = (.ok (), buffer ++ b)) ∨
    ∃ e part, written = .error e ∧ m.run buffer = (.error e, buffer ++ part)

def joined (x y : Except WireError Bytes) : Except WireError Bytes := return (← x) ++ (← y)

namespace Fills

variable {m n : Filler Unit} {x y : Except WireError Bytes}

theorem put (b : Bytes) : Fills (put b) (Pure.pure b) := fun _ => .inl ⟨b, rfl, rfl⟩

theorem field (x : Except WireError Bytes) : Fills (field x) x := by
  intro buffer
  cases x with
  | ok b => exact .inl ⟨b, rfl, rfl⟩
  | error e => exact .inr ⟨e, [], rfl, by rw [List.append_nil]; rfl⟩

theorem pure : Fills (Pure.pure ()) (Pure.pure []) := fun buffer =>
  .inl ⟨[], rfl, by rw [List.append_nil]; rfl⟩

theorem bind (hm : Fills m x) (hn : Fills n y) : Fills (m >>= fun _ => n) (joined x y) := by
  intro buffer
  rw [run_bind]
  obtain ⟨a, rfl, ha⟩ | ⟨e, part, rfl, he⟩ := hm buffer
  · rw [ha]
    obtain ⟨b, rfl, hb⟩ | ⟨e, part, rfl, he⟩ := hn (buffer ++ a)
    · exact .inl ⟨a ++ b, rfl, by rw [← List.append_assoc]; exact hb⟩
    · exact .inr ⟨e, a ++ part, rfl, by rw [← List.append_assoc]; exact he⟩
  · rw [he]
    exact .inr ⟨e, part, rfl, rfl⟩

theorem provided {p : Prop} [Decidable p] (hm : Fills m x) :
    Fills (provided p m) (if p then x else Pure.pure []) := by
  unfold Filler.provided
  split
  · exact hm
  · exact pure

theorem list {α : Type} {f : α → Filler Unit} {g : α → Except WireError Bytes}
    (h : ∀ a, Fills (f a) (g a)) (l : List α) :
    Fills (l.forM f) (return (← l.mapM g).flatten) := by
  induction l with
  | nil => exact pure
  | cons a l ih =>
    have all : (return (← (a :: l).mapM g).flatten) =
        joined (g a) (return (← l.mapM g).flatten) := by
      simp only [List.mapM_cons, joined, bind_assoc, pure_bind, List.flatten_cons]
    rw [all]
    exact (h a).bind ih

theorem optional {α : Type} {f : α → Filler Unit} {g : α → Except WireError Bytes}
    (h : ∀ a, Fills (f a) (g a)) (o : Option α) :
    Fills (o.forM f) (o.elim (.ok []) g) := by
  cases o with
  | none => exact pure
  | some a => exact h a

end Fills

namespace Property

theorem fills_fillValue (p : Property) : Fills p.fillValue p.encodeValue := by
  cases p with
  | byte | twoBytes | fourBytes => exact .put _
  | text | binary | subscriptionIdentifier => exact .field _
  | userProperty key value => exact .bind (.field _) (.field _)

theorem fills_fill (p : Property) : Fills p.fill p.encode := .bind (.put _) p.fills_fillValue

end Property

theorem Properties.fills_fill (ps : Properties) :
    Fills (Properties.fill ps) (Properties.encode ps) := by
  have written : Properties.encode ps = joined (VarInt.encode ps.blockSize)
      (return (← ps.mapM Property.encode).flatten) := by
    simp only [encode, joined, bind_assoc, pure_bind]
  rw [written]
  exact .bind (.field _) (.list Property.fills_fill ps)

theorem LastWill.fills_fill (w : LastWill) : Fills w.fill w.encode := by
  have written : w.encode = joined (Properties.encode w.properties)
      (joined (encodeText w.topic) (encodeBinary w.message)) := by
    simp only [encode, joined, bind_assoc, pure_bind, List.append_assoc]
  rw [written]
  exact .bind (Properties.fills_fill _) (.bind (.field _) (.field _))

theorem Connect.fills_fillBody (p : Connect) : Fills p.fillBody p.encodeBody := by
  have written : p.encodeBody = joined (encodeText protocolName) (joined (pure [protocolLevel])
      (joined (pure [p.flags]) (joined (pure (Bytes.ofUInt16 p.keepAlive))
      (joined (Properties.encode p.properties) (joined (encodeText p.clientId)
      (joined (p.lastWill.elim (.ok []) LastWill.encode)
      (joined (p.username.elim (.ok []) encodeText)
      (p.password.elim (.ok []) encodeBinary)))))))) := by
    simp only [encodeBody, joined, bind_assoc, pure_bind, List.append_assoc, List.cons_append,
      List.nil_append]
  rw [written]
  exact .bind (.field _) <| .bind (.put _) <| .bind (.put _) <| .bind (.put _) <|
    .bind (Properties.fills_fill _) <| .bind (.field _) <|
    .bind (.optional LastWill.fills_fill _) <|
    .bind (.optional (fun _ => .field _) _) (.optional (fun _ => .field _) _)

theorem ConnAck.fills_fillBody (p : ConnAck) : Fills p.fillBody p.encodeBody := by
  have written : p.encodeBody = joined (pure [p.sessionPresent.toUInt8])
      (joined (pure [ReasonCode.code p.code]) (Properties.encode p.properties)) := by
    simp only [encodeBody, joined, bind_assoc, pure_bind, List.cons_append, List.nil_append]
  rw [written]
  exact .bind (.put _) (.bind (.put _) (Properties.fills_fill _))

theorem Publish.fills_fillBody (p : Publish) : Fills p.fillBody p.encodeBody := by
  have written : p.encodeBody = joined (encodeText p.topic)
      (joined (if p.qos ≠ .atMostOnce then pure (Bytes.ofUInt16 p.packetId) else pure [])
      (joined (Properties.encode p.properties) (pure p.payload))) := by
    by_cases h : p.qos = .atMostOnce
    · simp only [encodeBody, joined, h, ne_eq, not_true, if_true, if_false, bind_assoc, pure_bind,
        List.append_assoc, List.nil_append]
    · simp only [encodeBody, joined, h, ne_eq, not_false_iff, if_true, if_false, bind_assoc,
        pure_bind, List.append_assoc]
  rw [written]
  exact .bind (.field _) <| .bind (.provided (.put _)) <| .bind (Properties.fills_fill _) (.put _)

theorem Ack.fills_fillBody {R : Type} [ReasonCode R] (a : Ack R) :
    Fills a.fillBody a.encodeBody := by
  have written : a.encodeBody = joined (pure (Bytes.ofUInt16 a.packetId))
      (joined (if 2 < a.bodySize then pure [ReasonCode.code a.reason] else pure [])
      (if 3 < a.bodySize then Properties.encode a.properties else pure [])) := by
    have some := Properties.size_pos a.properties
    have reason : 2 < 2 + 1 + Properties.size a.properties := by omega
    have list : 3 < 2 + 1 + Properties.size a.properties := by omega
    unfold encodeBody bodySize
    by_cases none : a.properties.isEmpty
    · rw [if_pos none, if_pos none]
      split
      · rfl
      · rfl
    · rw [if_neg none, if_neg none, if_pos reason, if_pos list]
      simp only [joined, bind_assoc, pure_bind, List.append_assoc]
  rw [written]
  exact .bind (.put _) <| .bind (.provided (.put _)) (.provided (Properties.fills_fill _))

theorem Filter.fills_fill (f : Filter) : Fills f.fill f.encode := .bind (.field _) (.put _)

theorem fills_listed (packetId : UInt16) (ps : Properties) {m : Filler Unit}
    {x : Except WireError Bytes} (hm : Fills m x) :
    Fills (do
        put (Bytes.ofUInt16 packetId)
        Properties.fill ps
        m)
      (do
        let properties ← Properties.encode ps
        let list ← x
        return Bytes.ofUInt16 packetId ++ properties ++ list) := by
  have written : (do
      let properties ← Properties.encode ps
      let list ← x
      return Bytes.ofUInt16 packetId ++ properties ++ list) =
        joined (pure (Bytes.ofUInt16 packetId)) (joined (Properties.encode ps) x) := by
    simp only [joined, bind_assoc, pure_bind, List.append_assoc]
  rw [written]
  exact .bind (.put _) (.bind (Properties.fills_fill _) hm)

theorem fills_reasons {R : Type} [ReasonCode R] (l : List R) :
    Fills (l.forM fun reason => put [ReasonCode.code reason]) (pure (l.map ReasonCode.code)) := by
  have written : (pure (l.map ReasonCode.code) : Except WireError Bytes) =
      (return (← l.mapM fun reason => pure [ReasonCode.code reason]).flatten) := by
    rw [List.mapM_pure, pure_bind, ← List.flatMap_def]
    exact congrArg pure (List.flatMap_pure_eq_map _ _).symm
  rw [written]
  exact .list (fun _ => .put _) l

theorem Subscribe.fills_fillBody (p : Subscribe) : Fills p.fillBody p.encodeBody := by
  have listed := fills_listed p.packetId p.properties (.list Filter.fills_fill p.filters)
  simp only [bind_assoc, pure_bind] at listed
  exact listed

theorem SubAck.fills_fillBody (p : SubAck) : Fills p.fillBody p.encodeBody :=
  fills_listed p.packetId p.properties (fills_reasons p.returnCodes)

theorem Unsubscribe.fills_fillBody (p : Unsubscribe) : Fills p.fillBody p.encodeBody := by
  have listed := fills_listed p.packetId p.properties
    (.list (fun filter => .field (encodeText filter)) p.filters)
  simp only [bind_assoc, pure_bind] at listed
  exact listed

theorem UnsubAck.fills_fillBody (p : UnsubAck) : Fills p.fillBody p.encodeBody :=
  fills_listed p.packetId p.properties (fills_reasons p.reasons)

theorem Disconnect.fills_fillBody (p : Disconnect) : Fills p.fillBody p.encodeBody := by
  have written : p.encodeBody =
      joined (if 0 < p.bodySize then pure [ReasonCode.code p.reason] else pure [])
        (if 1 < p.bodySize then Properties.encode p.properties else pure []) := by
    have list : 1 < 1 + Properties.size p.properties :=
      Nat.lt_add_of_pos_right (Properties.size_pos p.properties)
    have reason : 0 < 1 + Properties.size p.properties := Nat.zero_lt_of_lt list
    unfold encodeBody bodySize
    by_cases none : p.properties.isEmpty
    · rw [if_pos none, if_pos none]
      split
      · rfl
      · rfl
    · rw [if_neg none, if_neg none, if_pos reason, if_pos list]
      simp only [joined, pure_bind]
  rw [written]
  exact .bind (.provided (.put _)) (.provided (Properties.fills_fill _))

namespace Packet

theorem fills_fillBody (p : Packet) : Fills p.fillBody p.encodeBody := by
  cases p with
  | connect p => exact p.fills_fillBody
  | connAck p => exact p.fills_fillBody
  | publish p => exact p.fills_fillBody
  | pubAck p | pubRec p => exact p.fills_fillBody
  | pubRel p | pubComp p => exact p.fills_fillBody
  | subscribe p => exact p.fills_fillBody
  | subAck p => exact p.fills_fillBody
  | unsubscribe p => exact p.fills_fillBody
  | unsubAck p => exact p.fills_fillBody
  | pingReq | pingResp => exact .pure
  | disconnect p => exact p.fills_fillBody

theorem run_fill (p : Packet) (buffer : Bytes) :
    (∃ bytes, p.encode = .ok bytes ∧ p.fill.run buffer = (.ok bytes.length, buffer ++ bytes)) ∨
      ∃ e part, p.encode = .error e ∧ p.fill.run buffer = (.error e, buffer ++ part) := by
  simp only [fill, encode, run_bind, run_made, run_put]
  cases hc : p.check with
  | error e => exact .inr ⟨e, [], rfl, by rw [List.append_nil]⟩
  | ok _ =>
    cases hl : VarInt.encode p.bodySize with
    | error e => exact .inr ⟨e, _, rfl, rfl⟩
    | ok length =>
      simp only
      obtain ⟨body, hb, hr⟩ | ⟨e, part, hb, hr⟩ :=
        p.fills_fillBody (buffer ++ [p.firstByte] ++ length)
      · have told : 1 + length.length + p.bodySize = ([p.firstByte] ++ length ++ body).length := by
          simp only [List.length_append, List.length_singleton, length_encodeBody hb]
        refine .inl ⟨[p.firstByte] ++ length ++ body, by rw [hb]; rfl, ?_⟩
        rw [hr, ← told, ← List.append_assoc, ← List.append_assoc]
        rfl
      · refine .inr ⟨e, [p.firstByte] ++ length ++ part, by rw [hb]; rfl, ?_⟩
        rw [hr]
        simp only [List.append_assoc]

theorem writeInPlace_eq (p : Packet) (buffer : Bytes) :
    p.writeInPlace buffer = p.write buffer := by
  obtain ⟨bytes, he, hr⟩ | ⟨e, part, he, hr⟩ := p.run_fill buffer
  · simp only [writeInPlace, write, he, hr, length_encode he]
    rfl
  · simp only [writeInPlace, write, he, hr, List.take_left]

/-- What is left of a write: the buffer as it was, or a whole frame behind it. -/
inductive Written (p : Packet) (buffer : Bytes) : Except WireError Nat × Bytes → Prop
  | refused {e : WireError} (h : p.encode = .error e) : Written p buffer (.error e, buffer)
  | whole {bytes : Bytes} (h : p.encode = .ok bytes) (frame : WholeFrame bytes p.bodySize) :
    Written p buffer (.ok bytes.length, buffer ++ bytes)

theorem wholeFrame_of_encode {p : Packet} {bytes : Bytes} (h : p.encode = .ok bytes) :
    WholeFrame bytes p.bodySize := by
  obtain ⟨-, fits, body, hb, rfl⟩ := encode_eq_ok.1 h
  rw [← length_encodeBody hb] at fits ⊢
  obtain ⟨size, few⟩ :=
    VarInt.spells_groups (k := 4) (by decide) (Nat.lt_succ_of_le fits : _ < VarInt.capacity 4)
  exact .mk p.firstByte few size

/-- The packet is written as a whole or not at all, although its fields are put one by one. The
bytes are the same behind every buffer, and the size in them is that of what follows it. -/
theorem written_writeInPlace (p : Packet) (buffer : Bytes) :
    p.writeInPlace buffer = p.write buffer ∧ Written p buffer (p.write buffer) := by
  refine ⟨p.writeInPlace_eq buffer, ?_⟩
  cases h : p.encode with
  | error e =>
    rw [write, h]
    exact .refused h
  | ok bytes =>
    have told : p.size = bytes.length := (length_encode h).symm
    simp only [write, h, told]
    exact .whole h (wholeFrame_of_encode h)

end Packet

end MqttClient
