import MqttClient.Frame
import MqttClient.Proofs.Wire.Reads

/-! Only the frame asks for more bytes. Once a frame is cut off the stream, whatever its body is
taken for is judged for good, so that no frame is taken and then waited for. -/

namespace MqttClient

/-- The error does not speak of what the bytes are, but of how few they are. -/
@[grind =] def WireError.asksForMore : WireError → Bool
  | insufficientBytes _ => true
  | _ => false

def Awaits {α : Type} (r : Except WireError α) : Prop := ∃ e, r = .error e ∧ e.asksForMore

namespace Awaits

variable {α β : Type}

@[simp] theorem not_ok (a : α) : ¬ Awaits (.ok a : Except WireError α) := nofun

@[simp] theorem error_iff {e : WireError} :
    Awaits (.error e : Except WireError α) ↔ e.asksForMore := by
  simp [Awaits]

theorem not_error {e : WireError} (h : e.asksForMore = false) :
    ¬ Awaits (.error e : Except WireError α) := by
  simp [h]

theorem bind {r : Except WireError α} (h : Awaits r) (f : α → Except WireError β) :
    Awaits (r >>= f) := by
  obtain ⟨e, rfl, asks⟩ := h
  exact ⟨e, rfl, asks⟩

theorem of_bind {r : Except WireError α} {f : α → Except WireError β} (h : Awaits (r >>= f)) :
    Awaits r ∨ ∃ a, r = .ok a ∧ Awaits (f a) := by
  cases r with
  | error e => exact .inl (error_iff.2 (error_iff.1 h))
  | ok a => exact .inr ⟨a, rfl, h⟩

@[simp] theorem map_iff {r : Except WireError α} {f : α → β} : Awaits (r.map f) ↔ Awaits r := by
  cases r <;> simp [Except.map]

theorem not_mapM {f : α → Except WireError β} (h : ∀ a, ¬ Awaits (f a)) (l : List α) :
    ¬ Awaits (l.mapM f) := by
  induction l with
  | nil =>
    rw [List.mapM_nil]
    exact not_ok _
  | cons a l ih =>
    rw [List.mapM_cons]
    intro no
    obtain first | ⟨_, -, later⟩ := of_bind no
    · exact h a first
    obtain rest | ⟨_, -, last⟩ := of_bind later
    · exact ih rest
    · exact not_ok _ last

end Awaits

namespace Decoder

variable {α β : Type}

/-- What is read counts as all there is: the reader never asks for more bytes. -/
def Final (d : Decoder α) : Prop := ∀ b, ¬ Awaits (d b)

section Rules

variable {d : Decoder α} {f : α → Decoder β} {e : WireError}

@[grind ←] theorem Final.bind (hd : Final d) (hf : ∀ a, Final (f a)) : Final (d >>= f) := by
  intro b h
  obtain h | ⟨p, -, h⟩ := Awaits.of_bind h
  · exact hd b h
  · exact hf p.1 p.2 h

@[grind ←] theorem Final.pure (a : α) : Final (Pure.pure a : Decoder α) := fun _ => Awaits.not_ok _

@[grind ←] theorem Final.map (hd : Final d) (g : α → β) : Final (g <$> d) :=
  hd.bind fun a => .pure (g a)

@[grind ←] theorem Final.lift {r : Except WireError α} (h : ¬ Awaits r) :
    Final (monadLift r : Decoder α) := by
  intro b no
  obtain first | ⟨_, -, last⟩ := Awaits.of_bind no
  · exact h first
  · exact Awaits.not_ok _ last

@[grind ←] theorem Final.throw (h : e.asksForMore = false) :
    Final (MonadExcept.throw e : Decoder α) := fun _ => Awaits.not_error h

@[grind ←] theorem Final.throw_bind (h : e.asksForMore = false) :
    Final (MonadExcept.throw e >>= f) := fun _ => Awaits.not_error h

theorem Final.unless {p : Prop} [Decidable p] (h : e.asksForMore = false) {k : Decoder β}
    (hk : Final k) : Final (if p then MonadExcept.throw e >>= f else k) := by
  split
  · exact .throw_bind h
  · exact hk

theorem Final.within (hd : Final d) (block : Bytes) : ¬ Awaits (within block d) :=
  mt Awaits.map_iff.1 (hd block)

end Rules

@[grind ←] theorem final_byte : Final byte := by
  rintro (_ | ⟨x, b⟩)
  · exact Awaits.not_error rfl
  · exact Awaits.not_ok _

@[grind ←] theorem final_twoBytes : Final twoBytes := by
  rintro (_ | ⟨x, _ | ⟨y, b⟩⟩)
  · exact Awaits.not_error rfl
  · exact Awaits.not_error rfl
  · exact Awaits.not_ok _

@[grind ←] theorem final_fourBytes : Final fourBytes := by
  intro b
  unfold fourBytes
  split
  · exact Awaits.not_ok _
  · exact Awaits.not_error rfl

@[grind ←] theorem final_varInt : Final varInt := by
  intro b
  unfold varInt
  split
  · exact Awaits.not_ok _
  · exact Awaits.not_error rfl
  · next e other _ =>
    -- a number that breaks off is an error of the packet here, unlike in the header
    rw [Awaits.error_iff]
    cases e with
    | insufficientBytes n => exact absurd rfl (other n)
    | _ => nofun

@[grind ←] theorem final_span (n : Nat) : Final (span n) := by
  intro b
  unfold span
  split
  · exact Awaits.not_error rfl
  · exact Awaits.not_ok _

@[grind ←] theorem final_binary : Final binary := by
  unfold binary
  grind

@[grind ←] theorem final_text : Final text := by
  refine final_binary.bind fun b => ?_
  split
  · grind
  · grind

@[grind ←] theorem final_remaining : Final remaining := fun _ => Awaits.not_ok _

@[grind ←] theorem final_atEnd : Final atEnd := fun _ => Awaits.not_ok _

@[grind ←] theorem final_nonzeroId : Final nonzeroId := by
  unfold nonzeroId
  grind

theorem final_itemsLoop {item : Decoder α} (h : Final item) (fuel : Nat) (acc : List α) :
    Final (itemsLoop item fuel acc) := by
  induction fuel generalizing acc with
  | zero =>
    rintro (_ | ⟨x, b⟩)
    · exact Awaits.not_ok _
    · exact Awaits.not_error rfl
  | succ fuel ih =>
    intro b
    by_cases hb : b = []
    · subst hb
      exact Awaits.not_ok _
    · rw [itemsLoop_succ item fuel acc hb]
      intro no
      obtain no | ⟨p, -, no⟩ := Awaits.of_bind no
      · exact h b no
      · exact ih (p.1 :: acc) p.2 no

@[grind ←] theorem final_items {item : Decoder α} (h : Final item) : Final (items item) :=
  fun b => final_itemsLoop h b.length [] b

variable {R : Type} [ReasonCode R] {refused : UInt8 → WireError}

@[grind ←] theorem not_awaits_reasonOr (h : ∀ c, (refused c).asksForMore = false) (c : UInt8) :
    ¬ Awaits (reasonOr refused c : Except WireError R) := by
  unfold reasonOr
  split
  · exact Awaits.not_ok _
  · exact Awaits.not_error (h c)

@[grind ←] theorem final_reasonList (h : ∀ c, (refused c).asksForMore = false) :
    Final (reasonList refused : Decoder (List R)) := fun b =>
  mt Awaits.map_iff.1 (Awaits.not_mapM (not_awaits_reasonOr h) b)

end Decoder

open Decoder

@[grind ←] theorem QoS.not_awaits_decode (level : UInt8) : ¬ Awaits (QoS.decode level) := by
  unfold QoS.decode
  split
  · exact Awaits.not_ok _
  · exact Awaits.not_error rfl

theorem Property.final_decodeValue (id : PropertyId) : Final (Property.decodeValue id) := by
  cases id <;>
    · unfold Property.decodeValue
      grind

theorem Property.final_decode : Final Property.decode := by
  refine final_byte.bind fun code => ?_
  split
  · exact Property.final_decodeValue _
  · exact .throw rfl

@[grind ←] theorem Properties.final_decode : Final Properties.decode := by
  refine final_varInt.bind fun size => (final_span size).bind fun block => .lift ?_
  exact (final_items Property.final_decode).within block

@[grind ←] theorem LastWill.final_decode (flags : UInt8) : Final (LastWill.decode flags) := by
  unfold LastWill.decode
  grind

theorem Connect.final_decode : Final Connect.decode := by
  refine final_text.bind fun protocol => .unless rfl ?_
  refine final_byte.bind fun level => .unless rfl ?_
  refine final_byte.bind fun flags => .unless rfl ?_
  grind

theorem ConnAck.final_decode : Final ConnAck.decode := by
  unfold ConnAck.decode
  grind

theorem Publish.final_decode (flags : UInt8) : Final (Publish.decode flags) := by
  unfold Publish.decode
  grind

theorem Ack.final_decode {R : Type} [ReasonCode R] (bodySize : Nat) :
    Final (Ack.decode bodySize : Decoder (Ack R)) := by
  unfold Ack.decode
  grind

theorem Filter.final_decode : Final Filter.decode := by
  refine final_text.bind fun path => final_byte.bind fun options => .unless rfl ?_
  dsimp only
  split
  · grind
  · exact .throw rfl

theorem Subscribe.final_decode : Final Subscribe.decode := by
  unfold Subscribe.decode
  grind [Filter.final_decode]

theorem SubAck.final_decode : Final SubAck.decode := by
  unfold SubAck.decode
  grind

theorem Unsubscribe.final_decode : Final Unsubscribe.decode := by
  unfold Unsubscribe.decode
  grind

theorem UnsubAck.final_decode : Final UnsubAck.decode := by
  unfold UnsubAck.decode
  grind

theorem Disconnect.final_decode : Final Disconnect.decode := by
  unfold Disconnect.decode
  grind

namespace FixedHeader

theorem not_awaits_packetType (h : FixedHeader) : ¬ Awaits h.packetType := by
  simp only [packetType]
  split
  · exact Awaits.not_ok _
  · exact Awaits.not_error rfl

theorem not_awaits_checkFlags (h : FixedHeader) (type : PacketType) :
    ¬ Awaits (h.checkFlags type) := by
  unfold checkFlags
  split
  · split
    · exact Awaits.not_ok _
    · exact Awaits.not_error rfl
  · exact Awaits.not_ok _

end FixedHeader

namespace Packet

theorem not_awaits_decodeBody (type : PacketType) (flags : UInt8) (body : Bytes) :
    ¬ Awaits (decodeBody type flags body) := by
  cases type with
  | connect => exact (Connect.final_decode.map connect).within body
  | connAck => exact (ConnAck.final_decode.map connAck).within body
  | publish => exact ((Publish.final_decode flags).map publish).within body
  | pubAck => exact ((Ack.final_decode body.length).map pubAck).within body
  | pubRec => exact ((Ack.final_decode body.length).map pubRec).within body
  | pubRel => exact ((Ack.final_decode body.length).map pubRel).within body
  | pubComp => exact ((Ack.final_decode body.length).map pubComp).within body
  | subscribe => exact (Subscribe.final_decode.map subscribe).within body
  | subAck => exact (SubAck.final_decode.map subAck).within body
  | unsubscribe => exact (Unsubscribe.final_decode.map unsubscribe).within body
  | unsubAck => exact (UnsubAck.final_decode.map unsubAck).within body
  | pingReq | pingResp => exact Awaits.not_error rfl
  | disconnect => exact (Disconnect.final_decode.map disconnect).within body

theorem not_awaits_withoutBody (type : PacketType) : ¬ Awaits (withoutBody type) := by
  cases type <;> simp [withoutBody, WireError.asksForMore]

theorem not_awaits_ofFrame (header : FixedHeader) (body : Bytes) :
    ¬ Awaits (ofFrame header body) := by
  intro no
  obtain first | ⟨type, -, later⟩ := Awaits.of_bind no
  · exact header.not_awaits_packetType first
  obtain second | ⟨_, -, last⟩ := Awaits.of_bind later
  · exact header.not_awaits_checkFlags type second
  split at last
  · exact not_awaits_withoutBody type last
  · exact not_awaits_decodeBody type header.flags body last

end Packet

end MqttClient
