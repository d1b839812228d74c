import MqttClient.Proofs.Delivery.Coherent

/-! The invariant is kept when a packet reaches the receiver, and when an answer reaches the
sender. -/

namespace MqttClient.Delivery

theorem forward_eq {x : Exchange} {now : Time} {parcel : Parcel} {rest : List Parcel}
    {r : Session} {reply : Packet} {events : List Event} (ha : x.ahead = parcel :: rest)
    (hr : x.receiver.receive now parcel.packet = (r, .ok (some reply)))
    (he : r.events = x.receiver.events ++ events) :
    x.forward now = { x with
      receiver := r
      ahead := rest
      back := x.back ++ [reply]
      delivered := x.delivered ++ events.filterMap (deliveredBy parcel) } := by
  simp [Exchange.forward, ha, hr, newEvents_append he, reply?]

theorem answer_eq {x : Exchange} {now : Time} {packet : Packet} {rest : List Packet} {s : Session}
    {reply : Option Packet} {events : List Event} (hb : x.back = packet :: rest)
    (hs : x.sender.receive now packet = (s, .ok reply))
    (he : s.events = x.sender.events ++ events) :
    x.answer now = { x with
      sender := s
      ahead := x.ahead ++ reply.toList.map (stamp s)
      back := rest
      completed := x.completed ++ events.filterMap (completedBy x.sender) } := by
  simp [Exchange.answer, hb, hs, newEvents_append he, reply?]

theorem copies_of_order_ne {x y : Exchange} {parcel : Parcel} {events : List Event} {n : Nat}
    (hd : y.delivered = x.delivered ++ events.filterMap (deliveredBy parcel))
    (hn : parcel.order ≠ some n) : y.copies n = x.copies n := by
  have none : (events.filterMap (deliveredBy parcel)).countP (·.1 == some n) = 0 := by
    rw [List.countP_eq_zero]
    intro d hm
    obtain ⟨event, -, he⟩ := List.mem_filterMap.1 hm
    unfold deliveredBy at he
    split at he <;> cases he
    simpa using hn
  rw [Exchange.copies, hd, List.countP_append, none, Nat.add_zero]
  rfl

namespace Coherent

variable {x : Exchange} (h : Coherent x)
include h

theorem of_arrival {y : Exchange} (hs : y.sender = x.sender)
    (receiver_connected : y.receiver.connection = .connected) (ha : y.accepted = x.accepted)
    (hc : y.completed = x.completed) (hq : ∀ parcel ∈ y.ahead, parcel ∈ x.ahead)
    (lanes : ∀ k, (y.lane k).Ok) (back : ∀ packet ∈ y.back, IsAnswer packet)
    (delivered : ∀ d ∈ y.delivered, ∃ n, d.1 = some n ∧ (n, { d.2 with dup := false }) ∈ x.accepted)
    (copies : ∀ a ∈ x.accepted, a.2.qos = .exactlyOnce → y.copies a.1 ≠ x.copies a.1 →
      ∃ (k : UInt16) (t : Transaction), x.sender.outgoing[k]? = some t ∧ t.order = a.1) :
    Coherent y where
  sound := hs ▸ h.sound
  sender_connected := hs ▸ h.sender_connected
  receiver_connected := receiver_connected
  lanes := lanes
  open_accepted ht := by
    rw [hs] at ht
    rw [ha]
    exact h.open_accepted ht
  accepted_le := by
    rw [ha, hs]
    exact h.accepted_le
  accepted_inj := by
    rw [ha]
    exact h.accepted_inj
  ahead parcel hm := onItsWay_of_sameOpen (hs ▸ fun _ => rfl) ha (h.ahead parcel (hq parcel hm))
  back := back
  delivered := by
    rw [ha]
    exact delivered
  ended a hm eq := by
    rw [ha] at hm
    rw [hs]
    by_cases e : y.copies a.1 = x.copies a.1
    · exact e ▸ h.ended a hm eq
    · exact .inl (copies a hm eq e)
  completed := by
    rw [hc, hs]
    exact h.completed

theorem forward_atLeastOnce (now : Time) {p : Publish} {order : Option Nat} {rest : List Parcel}
    (ha : x.ahead = { packet := .publish p, order } :: rest) (hq : p.qos = .atLeastOnce) :
    Coherent (x.forward now) := by
  obtain ⟨-, n, hn, accepted, -⟩ := h.ahead _ (by rw [ha]; exact List.mem_cons_self)
  change order = some n at hn
  subst hn
  have other : ∀ a ∈ x.accepted, a.2.qos = .exactlyOnce → a.1 ≠ n := by
    intro a hm eq e
    have := h.accepted_inj _ hm _ accepted e
    subst this
    simp [hq] at eq
  rw [forward_eq ha (Session.receive_publish_atLeastOnce h.receiver_connected now hq) rfl]
  refine h.of_arrival rfl h.receiver_connected rfl rfl (fun parcel hm => by simp [ha, hm])
    (fun k => ?_) ?_ ?_ fun a hm eq e => absurd ?_ e
  · convert h.lanes k using 1
    refine Lane.ext rfl rfl ?_ (by simp [Exchange.lane, ha, signal?, hq])
      (by simp [Exchange.lane, response?])
    simp only [Exchange.lane]
    rcases ht : x.sender.outgoing[k]? with _ | t
    · rfl
    · by_cases ht2 : t.isPublish .exactlyOnce
      · obtain ⟨q, hp, hm⟩ := h.open_accepted ht
        obtain ⟨q', hp', eq⟩ := Transaction.isPublish_iff.1 ht2
        rw [hp, Packet.publish.injEq] at hp'
        have ne : some n ≠ some t.order := fun e => other _ hm (hp' ▸ eq) (Option.some.inj e).symm
        simp only [Option.elim_some, ht2, if_true]
        exact copies_of_order_ne rfl ne
      · simp [ht2]
  · simpa [IsAnswer, or_imp, forall_and] using h.back
  · simp only [List.mem_append, List.filterMap_cons, deliveredBy, List.filterMap_nil,
      List.mem_singleton]
    rintro d (hm | rfl)
    · exact h.delivered d hm
    · exact ⟨n, rfl, accepted⟩
  · exact copies_of_order_ne rfl fun e => other a hm eq (Option.some.inj e).symm

theorem forward_exactlyOnce (now : Time) {p : Publish} {order : Option Nat} {rest : List Parcel}
    (ha : x.ahead = { packet := .publish p, order } :: rest) (hq : p.qos = .exactlyOnce) :
    Coherent (x.forward now) := by
  obtain ⟨-, n, hn, accepted, open_⟩ := h.ahead _ (by rw [ha]; exact List.mem_cons_self)
  obtain ⟨t, ht, eo⟩ := open_ hq
  change order = some n at hn
  subst hn eo
  have kind : t.isPublish .exactlyOnce = true :=
    Transaction.isPublish_iff.2 ⟨_, h.eq_of_accepted ht accepted, hq⟩
  have taking : x.receiver.connection ≠ .connecting := by simp [h.receiver_connected]
  obtain ⟨r, hr, connection, events, held⟩ := Session.receive_publish_exactlyOnce taking now hq
  rw [forward_eq ha hr events]
  refine h.of_arrival rfl (connection.trans h.receiver_connected) rfl rfl
    (fun parcel hm => by simp [ha, hm]) (fun k => ?_) ?_ ?_ fun a hm eq e => ?_
  · by_cases ek : p.packetId = k
    · subst ek
      have front : (x.lane p.packetId).ahead =
          .message :: rest.filterMap fun parcel => signal? p.packetId parcel.packet := by
        simp [Exchange.lane, ha, signal?, hq]
      convert (h.lanes p.packetId).message front using 1
      refine Lane.ext rfl (by simp [Exchange.lane, held]) ?_ rfl
        (by simp [Exchange.lane, response?])
      simp only [Exchange.lane, ht, Option.elim_some, kind, if_true]
      split <;> simp [Exchange.copies, deliveredBy]
    · convert h.lanes k using 1
      refine Lane.ext rfl (by simp [Exchange.lane, held, ek]) ?_
        (by simp [Exchange.lane, ha, signal?, ek]) (by simp [Exchange.lane, response?, ek])
      simp only [Exchange.lane]
      rcases hu : x.sender.outgoing[k]? with _ | u
      · rfl
      · have ne : some t.order ≠ some u.order :=
          fun e => ek (h.sound.order_inj ht hu (Option.some.inj e))
        simp only [Option.elim_some]
        rw [copies_of_order_ne rfl ne]
  · simpa [IsAnswer, or_imp, forall_and] using h.back
  · intro d hm
    obtain hm | hm := List.mem_append.1 hm
    · exact h.delivered d hm
    · split at hm
      · simp at hm
      · simp only [List.filterMap_cons, deliveredBy, List.filterMap_nil, List.mem_singleton] at hm
        exact hm ▸ ⟨t.order, rfl, accepted⟩
  · refine ⟨p.packetId, t, ht, ?_⟩
    by_contra ne
    exact e (copies_of_order_ne rfl fun e => ne (Option.some.inj e))

theorem forward_release (now : Time) {a : Ack ReleaseReason} {order : Option Nat}
    {rest : List Parcel} (ha : x.ahead = { packet := .pubRel a, order } :: rest) :
    Coherent (x.forward now) := by
  obtain ⟨r, reason, hr, connection, events, held⟩ := Session.receive_pubRel x.receiver now a
  rw [forward_eq ha hr (events.trans (List.append_nil _).symm)]
  refine h.of_arrival rfl (connection.trans h.receiver_connected) rfl rfl
    (fun parcel hm => by simp [ha, hm]) (fun k => ?_) ?_ (by simpa using h.delivered)
    fun _ _ _ e => absurd (by simp [Exchange.copies]) e
  · by_cases ek : a.packetId = k
    · subst ek
      have front : (x.lane a.packetId).ahead =
          .release :: rest.filterMap fun parcel => signal? a.packetId parcel.packet := by
        simp [Exchange.lane, ha, signal?]
      convert (h.lanes a.packetId).release front using 1
      exact Lane.ext rfl (by simp [Exchange.lane, held]) (by simp [Exchange.lane, Exchange.copies])
        rfl (by simp [Exchange.lane, response?])
    · convert h.lanes k using 1
      exact Lane.ext rfl (by simp [Exchange.lane, held, ek])
        (by simp [Exchange.lane, Exchange.copies])
        (by simp [Exchange.lane, ha, signal?, ek]) (by simp [Exchange.lane, response?, ek])
  · simpa [IsAnswer, or_imp, forall_and] using h.back

theorem forward (now : Time) : Coherent (x.forward now) := by
  rcases ha : x.ahead with _ | ⟨⟨packet, order⟩, rest⟩
  · simpa [Exchange.forward, ha] using h
  have onItsWay := h.ahead _ (by rw [ha]; exact List.mem_cons_self)
  cases packet with
  | publish p =>
    rcases hq : p.qos with _ | _ | _
    · exact absurd hq onItsWay.1
    · exact h.forward_atLeastOnce now ha hq
    · exact h.forward_exactlyOnce now ha hq
  | pubRel a => exact h.forward_release now ha
  | _ => exact absurd onItsWay id

theorem of_forget {y : Exchange} {k : UInt16} {t : Transaction}
    (ht : x.sender.outgoing[k]? = some t) (sound : y.sender.IsSound)
    (sender_connected : y.sender.connection = .connected)
    (ho : ∀ j : UInt16, y.sender.outgoing[j]? = if k = j then none else x.sender.outgoing[j]?)
    (hl : y.sender.lastOrder = x.sender.lastOrder) (hr : y.receiver = x.receiver)
    (ha : y.accepted = x.accepted) (hd : y.delivered = x.delivered) (hq : y.ahead = x.ahead)
    (hb : ∀ packet ∈ y.back, packet ∈ x.back) (lanes : ∀ k, (y.lane k).Ok)
    (once : t.isPublish .exactlyOnce = true → x.copies t.order = 1)
    (hc : ∀ n ∈ y.completed, n ∈ x.completed ∨ n = t.order) : Coherent y where
  sound := sound
  sender_connected := sender_connected
  receiver_connected := hr ▸ h.receiver_connected
  lanes := lanes
  open_accepted {j u} hu := by
    rw [ho] at hu
    split at hu
    · cases hu
    · exact ha ▸ h.open_accepted hu
  accepted_le := by
    rw [ha, hl]
    exact h.accepted_le
  accepted_inj := by
    rw [ha]
    exact h.accepted_inj
  ahead parcel hm := by
    have onItsWay := h.ahead parcel (hq ▸ hm)
    unfold Exchange.OnItsWay at onItsWay ⊢
    split
    · next p hp =>
      simp only [hp] at onItsWay
      obtain ⟨hqos, n, hn, accepted, open_⟩ := onItsWay
      refine ⟨hqos, n, hn, ha ▸ accepted, fun eq => ?_⟩
      rw [ho, if_neg]
      · exact open_ eq
      -- no message of the transaction is left once it has ended
      · intro ek
        have closed : (y.lane k).stage = .closed := by simp [Exchange.lane, ho, stageOf]
        have lane := lanes k
        simp only [Lane.Ok, closed] at lane
        refine lane.2.1 (List.mem_filterMap.2 ⟨parcel, hm, ?_⟩)
        simp [hp, signal?, eq, ek]
    · trivial
    · simp_all
  back packet hm := h.back packet (hb packet hm)
  delivered := by
    rw [ha, hd]
    exact h.delivered
  ended a hm eq := by
    rw [ha] at hm
    rw [copies_congr hd]
    obtain ⟨j, u, hu, eo⟩ | hc := h.ended a hm eq
    · by_cases ej : k = j
      · subst ej
        rw [ht, Option.some.injEq] at hu
        subst hu
        have accepted : (t.order, a.2) ∈ x.accepted := eo ▸ hm
        exact .inr (eo ▸ once (Transaction.isPublish_iff.2 ⟨_, h.eq_of_accepted ht accepted, eq⟩))
      · exact .inl ⟨j, u, by rw [ho, if_neg ej, hu], eo⟩
    · exact .inr hc
  completed n hn := by
    rw [hl]
    obtain hm | rfl := hc n hn
    · obtain ⟨hle, hne⟩ := h.completed n hm
      refine ⟨hle, fun j u hu => ?_⟩
      rw [ho] at hu
      split at hu
      · cases hu
      · exact hne j u hu
    · refine ⟨h.sound.order_le ht, fun j u hu e => ?_⟩
      rw [ho] at hu
      split at hu
      · cases hu
      · next ne => exact ne (h.sound.order_inj ht hu e.symm)

theorem answer_pubAck (now : Time) {a : Ack PublishReason} {rest : List Packet}
    (hb : x.back = .pubAck a :: rest) : Coherent (x.answer now) := by
  have sound := Session.receive_isSound h.sound now (.pubAck a)
  have back : ∀ packet ∈ rest, packet ∈ x.back := fun packet hm => by simp [hb, hm]
  have nothing : ∀ k, (x.lane k).back = rest.filterMap (response? k) := fun k => by
    rw [Exchange.lane, hb, List.filterMap_cons]
    rfl
  obtain e | ⟨t, ht, hq, e⟩ := Session.receive_pubAck_cases x.sender now a
  · rw [e] at sound
    rw [answer_eq hb e (List.append_nil _).symm]
    refine h.of_sameOpen sound h.sender_connected h.receiver_connected (fun _ => rfl) rfl rfl rfl
      (by simp) (fun k => ?_) (fun parcel hm => h.ahead parcel (by simpa using hm))
      fun packet hm => h.back packet (back packet hm)
    convert h.lanes k using 1
    exact Lane.ext rfl rfl rfl (by simp [Exchange.lane]) (nothing k).symm
  · rw [e] at sound
    have kind : t.isPublish .exactlyOnce = false := by
      obtain ⟨p, hp, hpq⟩ := Transaction.isPublish_iff.1 hq
      simp [Transaction.isPublish, hp, hpq]
    rw [answer_eq hb e rfl]
    refine h.of_forget ht sound h.sender_connected
      (fun j => by simp [Session.push, Session.forget, Std.TreeMap.getElem?_erase]) rfl rfl rfl rfl
      (by simp) back (fun k => ?_) (by simp [kind])
      fun n hm => .inl (by simpa [completedBy] using hm)
    convert h.lanes k using 1
    refine Lane.ext ?_ rfl ?_ (by simp [Exchange.lane]) (nothing k).symm
    · by_cases ek : a.packetId = k
      · subst ek
        simp [Exchange.lane, Session.push, Session.forget, stageOf, ht, kind]
      · simp [Exchange.lane, Session.push, Session.forget, Std.TreeMap.getElem?_erase, ek]
    · by_cases ek : a.packetId = k
      · subst ek
        simp [Exchange.lane, Session.push, Session.forget, ht, kind]
      · simp [Exchange.lane, Session.push, Session.forget, Std.TreeMap.getElem?_erase, ek,
          Exchange.copies]

theorem exists_open_of_received {k : UInt16} {back : List Response}
    (front : (x.lane k).back = .received :: back) :
    ∃ t, x.sender.outgoing[k]? = some t ∧ t.isPublish .exactlyOnce = true := by
  have ne := (h.lanes k).stage_ne_closed front
  rcases ht : x.sender.outgoing[k]? with _ | t
  · simp [Exchange.lane, ht, stageOf] at ne
  · refine ⟨t, rfl, ?_⟩
    by_contra kind
    simp [Exchange.lane, ht, stageOf, kind] at ne

theorem answer_pubRec (now : Time) {a : Ack PublishReason} {rest : List Packet}
    (hb : x.back = .pubRec a :: rest) : Coherent (x.answer now) := by
  have success : a.reason = .success := h.back (.pubRec a) (by rw [hb]; exact List.mem_cons_self)
  have sound := Session.receive_isSound h.sound now (.pubRec a)
  have front : (x.lane a.packetId).back = .received :: rest.filterMap (response? a.packetId) := by
    simp [Exchange.lane, hb, response?]
  obtain ⟨t, ht, kind⟩ := h.exists_open_of_received front
  have e := Session.receive_pubRec_success now success ht kind
  rw [e] at sound
  let u : Transaction := { t with phase := .released, retries := 0, lastSent := now }
  let s : Session :=
    { x.sender with lastIncoming := now, outgoing := x.sender.outgoing.insert a.packetId u }
  let release : Packet := .pubRel { packetId := a.packetId, reason := .success }
  let y : Exchange := { x with sender := s, ahead := x.ahead ++ [stamp s release], back := rest }
  have hy : x.answer now = y := by simp [answer_eq hb e (List.append_nil _).symm, y, s, u, release]
  have get : ∀ k : UInt16, s.outgoing[k]? =
      if a.packetId = k then some u else x.sender.outgoing[k]? := by
    intro k
    simp [s, Std.TreeMap.getElem?_insert]
  have still : SameOpen x.sender y.sender := by
    intro k
    change (s.outgoing[k]?).map _ = _
    rw [get]
    split
    · next ek =>
      rw [← ek, ht]
      rfl
    · rfl
  rw [hy]
  refine h.of_sameOpen sound h.sender_connected h.receiver_connected still rfl rfl rfl rfl
    (fun k => ?_) ?_ fun packet hm => h.back packet (hb ▸ List.mem_cons_of_mem _ hm)
  · by_cases ek : a.packetId = k
    · subst ek
      convert (h.lanes a.packetId).received front using 1
      refine Lane.ext ?_ rfl (copies_of_sameOpen still rfl _) ?_ rfl
      · have released : u.isPublish .exactlyOnce = true := kind
        simp [Exchange.lane, y, get, stageOf, released, show u.phase = .released from rfl]
      · simp [Exchange.lane, y, stamp, release, signal?]
    · convert h.lanes k using 1
      refine Lane.ext ?_ rfl (copies_of_sameOpen still rfl _) ?_ ?_
      · simp [Exchange.lane, y, get, ek]
      · simp [Exchange.lane, y, stamp, release, signal?, ek]
      · simp [Exchange.lane, y, hb, response?, ek]
  · simp only [y, List.mem_append, List.mem_singleton]
    rintro parcel (hm | rfl)
    · exact onItsWay_of_sameOpen still rfl (h.ahead parcel hm)
    · trivial

theorem copies_of_released {k : UInt16} {t : Transaction} (ht : x.sender.outgoing[k]? = some t)
    (phase : t.phase = .released) : (x.lane k).stage = .released ∧ x.copies t.order = 1 := by
  have kind : t.isPublish .exactlyOnce = true := by
    have held := (h.sound.fits ht).holdsPacket
    simp only [Transaction.HoldsPacket, phase] at held
    obtain ⟨p, hp, -, hq, -⟩ := held
    exact Transaction.isPublish_iff.2 ⟨p, hp, hq⟩
  have stage : (x.lane k).stage = .released := by
    simp [Exchange.lane, ht, stageOf, kind, phase]
  have lane := h.lanes k
  simp only [Lane.Ok, stage] at lane
  exact ⟨stage, by simpa [Exchange.lane, ht, kind] using lane.1⟩

theorem answer_pubComp (now : Time) {a : Ack ReleaseReason} {rest : List Packet}
    (hb : x.back = .pubComp a :: rest) : Coherent (x.answer now) := by
  have sound := Session.receive_isSound h.sound now (.pubComp a)
  have back : ∀ packet ∈ rest, packet ∈ x.back := fun packet hm => by simp [hb, hm]
  have front : (x.lane a.packetId).back = .completed :: rest.filterMap (response? a.packetId) := by
    simp [Exchange.lane, hb, response?]
  have ends := (h.lanes a.packetId).completed front
  obtain ⟨none, e⟩ | ⟨t, ht, phase, e⟩ := Session.receive_pubComp_cases x.sender now a
  · rw [e] at sound
    rw [answer_eq hb e (List.append_nil _).symm]
    refine h.of_sameOpen sound h.sender_connected h.receiver_connected (fun _ => rfl) rfl rfl rfl
      (by simp) (fun k => ?_) (fun parcel hm => h.ahead parcel (by simpa using hm))
      fun packet hm => h.back packet (back packet hm)
    by_cases ek : a.packetId = k
    · subst ek
      have stage : (x.lane a.packetId).stage ≠ .released := by
        simp only [Exchange.lane]
        rcases ht : x.sender.outgoing[a.packetId]? with _ | t
        · simp [stageOf]
        · simp only [stageOf, none t ht, if_false]
          split <;> simp
      rw [if_neg stage, if_neg stage] at ends
      convert ends using 1
      exact Lane.ext rfl rfl rfl (by simp [Exchange.lane]) rfl
    · convert h.lanes k using 1
      exact Lane.ext rfl rfl rfl (by simp [Exchange.lane])
        (by simp [Exchange.lane, hb, response?, ek])
  · rw [e] at sound
    obtain ⟨stage, once⟩ := h.copies_of_released ht phase
    rw [if_pos stage, if_pos stage] at ends
    rw [answer_eq hb e rfl]
    refine h.of_forget ht sound h.sender_connected
      (fun j => by simp [Session.push, Session.forget, Std.TreeMap.getElem?_erase]) rfl rfl rfl rfl
      (by simp) back (fun k => ?_) (fun _ => once)
      (by simp [completedBy, Session.transaction?, ht])
    by_cases ek : a.packetId = k
    · subst ek
      convert ends using 1
      refine Lane.ext ?_ rfl ?_ (by simp [Exchange.lane]) rfl
      · simp [Exchange.lane, Session.push, Session.forget, stageOf]
      · simp [Exchange.lane, Session.push, Session.forget]
    · convert h.lanes k using 1
      refine Lane.ext ?_ rfl ?_ (by simp [Exchange.lane])
        (by simp [Exchange.lane, hb, response?, ek])
      · simp [Exchange.lane, Session.push, Session.forget, Std.TreeMap.getElem?_erase, ek]
      · simp [Exchange.lane, Session.push, Session.forget, Std.TreeMap.getElem?_erase, ek,
          Exchange.copies]

theorem answer (now : Time) : Coherent (x.answer now) := by
  rcases hb : x.back with _ | ⟨packet, rest⟩
  · simpa [Exchange.answer, hb] using h
  have isAnswer := h.back packet (by rw [hb]; exact List.mem_cons_self)
  cases packet with
  | pubAck a => exact h.answer_pubAck now hb
  | pubRec a => exact h.answer_pubRec now hb
  | pubComp a => exact h.answer_pubComp now hb
  | _ => exact absurd isAnswer id

end Coherent

end MqttClient.Delivery
