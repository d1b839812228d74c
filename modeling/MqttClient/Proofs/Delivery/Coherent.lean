import MqttClient.Proofs.Delivery.Exchange
import MqttClient.Proofs.Delivery.Lane
import MqttClient.Proofs.Session.Steps

/-! The invariant of two sessions that talk to each other. It looks at one packet identifier at a
time, whose `lane` is in order whatever else is under way, and it accounts for every publish that
was accepted: it is open, or it was handed on once. Here it is kept by what the sender does of its
own accord and by a reset of the connection. -/

namespace MqttClient.Delivery

/-- What a packet to the receiver says about the exactly-once message of an identifier. -/
def signal? (k : UInt16) : Packet → Option Signal
  | .publish p => if p.qos = .exactlyOnce ∧ p.packetId = k then some .message else none
  | .pubRel a => if a.packetId = k then some .release else none
  | _ => none

def response? (k : UInt16) : Packet → Option Response
  | .pubRec a => if a.packetId = k then some .received else none
  | .pubComp a => if a.packetId = k then some .completed else none
  | _ => none

def stageOf : Option Transaction → Stage
  | some t =>
    if t.isPublish .exactlyOnce then if t.phase = .released then .released else .sent else .closed
  | none => .closed

theorem filterMap_concat {α β : Type} (f : α → Option β) (l : List α) (a : α) :
    (l ++ [a]).filterMap f = l.filterMap f ++ (f a).toList := by
  rw [List.filterMap_append, List.filterMap_cons, List.filterMap_nil]
  cases f a <;> rfl

namespace Exchange

def lane (x : Exchange) (k : UInt16) : Lane where
  stage := stageOf x.sender.outgoing[k]?
  held := x.receiver.received.contains k
  copies := (x.sender.outgoing[k]?).elim 0 fun t =>
    if t.isPublish .exactlyOnce then x.copies t.order else 0
  ahead := x.ahead.filterMap fun parcel => signal? k parcel.packet
  back := x.back.filterMap (response? k)

/-- Only messages and releases are on their way to the receiver. A message belongs to a publish that
was accepted, and an exactly-once message to a transaction that is open. -/
def OnItsWay (x : Exchange) (parcel : Parcel) : Prop :=
  match parcel.packet with
  | .publish p =>
    p.qos ≠ .atMostOnce ∧ ∃ n, parcel.order = some n ∧ (n, { p with dup := false }) ∈ x.accepted ∧
      (p.qos = .exactlyOnce → ∃ t, x.sender.outgoing[p.packetId]? = some t ∧ t.order = n)
  | .pubRel _ => True
  | _ => False

end Exchange

def IsAnswer : Packet → Prop
  | .pubAck _ => True
  | .pubRec a => a.reason = .success
  | .pubComp _ => True
  | _ => False

structure Coherent (x : Exchange) : Prop where
  sound : x.sender.IsSound
  sender_connected : x.sender.connection = .connected
  receiver_connected : x.receiver.connection = .connected
  lanes : ∀ k, (x.lane k).Ok
  open_accepted : ∀ {k : UInt16} {t : Transaction}, x.sender.outgoing[k]? = some t →
    ∃ p, t.packet = .publish p ∧ (t.order, p) ∈ x.accepted
  accepted_le : ∀ a ∈ x.accepted, a.1 ≤ x.sender.lastOrder
  accepted_inj : ∀ a ∈ x.accepted, ∀ b ∈ x.accepted, a.1 = b.1 → a = b
  ahead : ∀ parcel ∈ x.ahead, x.OnItsWay parcel
  back : ∀ packet ∈ x.back, IsAnswer packet
  delivered : ∀ d ∈ x.delivered, ∃ n, d.1 = some n ∧ (n, { d.2 with dup := false }) ∈ x.accepted
  ended : ∀ a ∈ x.accepted, a.2.qos = .exactlyOnce →
    (∃ (k : UInt16) (t : Transaction), x.sender.outgoing[k]? = some t ∧ t.order = a.1) ∨
      x.copies a.1 = 1
  completed : ∀ n ∈ x.completed, n ≤ x.sender.lastOrder ∧
    ∀ (k : UInt16) (t : Transaction), x.sender.outgoing[k]? = some t → t.order ≠ n

theorem signal?_resend {t : Transaction} {k : UInt16} (ht : t.Fits k)
    (hp : ∃ p, t.packet = .publish p) (j : UInt16) :
    signal? j t.resend = if k = j then (stageOf (some t)).signal? else none := by
  obtain ⟨p, hp⟩ := hp
  have held := ht.holdsPacket
  have hk := ht.packetId_eq
  unfold Transaction.HoldsPacket at held
  split at held
  · next phase =>
    obtain ⟨q, hq, hid, -, -⟩ := held
    rw [hp] at hq
    cases hq
    rw [hk] at hid
    by_cases e : p.qos = .exactlyOnce <;> by_cases ej : k = j <;>
      simp [Transaction.resend, hp, phase, signal?, stageOf, Transaction.isPublish, e, ej, hid,
        Stage.signal?]
  · next phase =>
    obtain ⟨q, hq, -, hqos, -⟩ := held
    rw [hp] at hq
    cases hq
    by_cases ej : k = j <;>
      simp [Transaction.resend, hp, phase, signal?, stageOf, Transaction.isPublish, hqos, ej, hk,
        Stage.signal?]
  · simp [hp] at held
  · simp [hp] at held

theorem onItsWay_resend {x : Exchange} {t : Transaction} {k : UInt16} (ht : t.Fits k)
    (hk : x.sender.outgoing[k]? = some t) {p : Publish} (hp : t.packet = .publish p)
    (ha : (t.order, p) ∈ x.accepted) : x.OnItsWay (stamp x.sender t.resend) := by
  have held := ht.holdsPacket
  have order : (stamp x.sender t.resend).order = some t.order := by
    simp [stamp, Session.transaction?, ht.packetIdOf_resend, hk]
  unfold Transaction.HoldsPacket at held
  split at held
  · next phase =>
    obtain ⟨q, hq, hid, hqos, hdup⟩ := held
    rw [hp] at hq
    cases hq
    have sent : t.resend = .publish { p with dup := true } := by
      simp [Transaction.resend, hp, phase]
    have same : ({ p with dup := false } : Publish) = p := by rw [← hdup]
    simp only [Exchange.OnItsWay, stamp, sent]
    refine ⟨hqos, t.order, ?_, same ▸ ha, fun _ => ⟨t, ?_, rfl⟩⟩
    · simpa [sent, stamp] using order
    · simpa [hid, ht.packetId_eq] using hk
  · next phase => simp [Exchange.OnItsWay, stamp, Transaction.resend, hp, phase]
  · simp [hp] at held
  · simp [hp] at held

theorem greet_eq {s : Session} (h : s.connection = .disconnected) (now : Time) (p : ConnAck) :
    greet s now p = { s with
      connection := .connected
      lastIncoming := now
      events := s.events ++ [.connected { p with code := .success }] } := by
  simp [greet, Session.connecting, h, Session.receive, Session.receiveConnAck, Session.push]

theorem newEvents_append {s s' : Session} {events : List Event}
    (h : s'.events = s.events ++ events) : newEvents s s' = events := by
  simp [newEvents, h]

theorem coherent_start (m n : UInt16) (now : Time) (p q : ConnAck) :
    Coherent (Exchange.start m n now p q) := by
  have hs : (Exchange.start m n now p q).sender = _ := greet_eq rfl now p
  have hr : (Exchange.start m n now p q).receiver = _ := greet_eq rfl now q
  have empty : ∀ k : UInt16, (Exchange.start m n now p q).sender.outgoing[k]? = none := by
    intro k
    rw [hs]
    exact Std.TreeMap.getElem?_emptyc
  refine ⟨Session.isSound_of_empty empty, by rw [hs], by rw [hr], fun k => ?_, ?_, ?_, ?_, ?_, ?_,
    ?_, ?_, ?_⟩
  · refine ⟨?_, by simp [Exchange.lane, Exchange.start], by simp [Exchange.lane, Exchange.start]⟩
    rw [Exchange.lane, hr]
    simp
  · intro k t ht
    simp [empty] at ht
  all_goals simp [Exchange.start]

namespace Exchange

def opening (x : Exchange) (now : Time) (k : UInt16) (q : Publish) : Transaction :=
  { packetId := k, packet := .publish q, phase := .sent, lastSent := now
    order := x.sender.lastOrder + 1 }

def accept (x : Exchange) (now : Time) (k : UInt16) (q : Publish) : Exchange :=
  { x with
    sender := x.sender.track now k (.publish q) .sent
    ahead := x.ahead ++ [{ packet := .publish q, order := some (x.sender.lastOrder + 1) }]
    accepted := x.accepted ++ [(x.sender.lastOrder + 1, q)] }

theorem getElem?_accept (x : Exchange) (now : Time) (k : UInt16) (q : Publish) (j : UInt16) :
    (x.accept now k q).sender.outgoing[j]?
      = if k = j then some (x.opening now k q) else x.sender.outgoing[j]? := by
  simp [accept, opening, Session.track, Std.TreeMap.getElem?_insert]

theorem getElem?_accept_of_eq_some {x : Exchange} {k : UInt16}
    (free : x.sender.outgoing[k]? = none) (now : Time) (q : Publish) {j : UInt16} {t : Transaction}
    (ht : x.sender.outgoing[j]? = some t) :
    (x.accept now k q).sender.outgoing[j]? = some t := by
  rw [getElem?_accept, if_neg fun e => by simp [← e, free] at ht]
  exact ht

theorem OnItsWay.accept {x : Exchange} {parcel : Parcel} (h : x.OnItsWay parcel) {k : UInt16}
    (free : x.sender.outgoing[k]? = none) (now : Time) (q : Publish) :
    (x.accept now k q).OnItsWay parcel := by
  unfold OnItsWay at h ⊢
  split
  · next r hr =>
    simp only [hr] at h
    obtain ⟨hq, n, hn, ha, ho⟩ := h
    refine ⟨hq, n, hn, List.mem_append_left _ ha, fun eq => ?_⟩
    obtain ⟨t, ht, et⟩ := ho eq
    exact ⟨t, getElem?_accept_of_eq_some free now q ht, et⟩
  · trivial
  · simp_all

end Exchange

theorem publish_cases {x : Exchange} (now : Time) (p : Publish) :
    x.publish now p = x ∨ ∃ k q, x.sender.outgoing[k]? = none ∧ k ≠ 0 ∧ q.packetId = k ∧
      q.dup = false ∧ q.qos ≠ .atMostOnce ∧ x.publish now p = x.accept now k q := by
  unfold Exchange.publish
  split
  · exact .inl rfl
  · next hq =>
    simp only [Session.send, Session.sendPublish, hq, if_false]
    rcases hs : x.sender.start now .sent fun k => .publish { p with packetId := k, dup := false }
      with ⟨s, e | packet⟩
    · exact .inl rfl
    · obtain ⟨k, -, free, ne, rfl, rfl⟩ := Session.start_eq_ok hs
      refine .inr ⟨k, { p with packetId := k, dup := false }, free, ne, rfl, rfl, hq, ?_⟩
      simp [stamp, Exchange.accept, Session.track, Session.transaction?, Engine.packetIdOf]

namespace Coherent

variable {x : Exchange} (h : Coherent x)
include h

theorem copies_eq_zero {n : Nat} (hn : x.sender.lastOrder < n) : x.copies n = 0 := by
  rw [Exchange.copies, List.countP_eq_zero]
  intro d hd e
  obtain ⟨m, hm, ha⟩ := h.delivered d hd
  have := h.accepted_le _ ha
  simp only [hm, beq_iff_eq, Option.some.injEq] at e
  omega

theorem eq_of_accepted {k : UInt16} {t : Transaction} (ht : x.sender.outgoing[k]? = some t)
    {p : Publish} (ha : (t.order, p) ∈ x.accepted) : t.packet = .publish p := by
  obtain ⟨q, hq, hb⟩ := h.open_accepted ht
  have := h.accepted_inj _ ha _ hb rfl
  simp_all

theorem lane_accept (now : Time) {k : UInt16} (free : x.sender.outgoing[k]? = none) {q : Publish}
    (hid : q.packetId = k) (j : UInt16) : ((x.accept now k q).lane j).Ok := by
  by_cases ej : k = j
  · subst ej
    by_cases eq : q.qos = .exactlyOnce
    · have hs : (x.lane k).stage = .closed := by simp [Exchange.lane, free, stageOf]
      have fresh : x.copies (x.sender.lastOrder + 1) = 0 := h.copies_eq_zero (Nat.lt_succ_self _)
      have kind : (x.opening now k q).isPublish .exactlyOnce = true := by
        simp [Exchange.opening, Transaction.isPublish, eq]
      convert (h.lanes k).open hs using 1
      ext1
      · simp [Exchange.lane, Exchange.getElem?_accept, stageOf, kind,
          show (x.opening now k q).phase = .sent from rfl]
      · rfl
      · simp only [Exchange.lane, Exchange.getElem?_accept, if_pos, Option.elim_some, kind]
        exact fresh
      · simp [Exchange.lane, Exchange.accept, signal?, eq, hid]
      · rfl
    · have kind : (x.opening now k q).isPublish .exactlyOnce = false := by
        simp [Exchange.opening, Transaction.isPublish, eq]
      convert h.lanes k using 1
      ext1
      · simp [Exchange.lane, Exchange.getElem?_accept, stageOf, kind, free]
      · rfl
      · simp [Exchange.lane, Exchange.getElem?_accept, kind, free]
      · simp [Exchange.lane, Exchange.accept, signal?, eq]
      · rfl
  · convert h.lanes j using 1
    ext1
    · simp [Exchange.lane, Exchange.getElem?_accept, ej]
    · rfl
    · simp only [Exchange.lane, Exchange.getElem?_accept, if_neg ej]
      rfl
    · simp [Exchange.lane, Exchange.accept, signal?, hid, ej]
    · rfl

theorem accept (now : Time) {k : UInt16} (free : x.sender.outgoing[k]? = none) (ne : k ≠ 0)
    {q : Publish} (hid : q.packetId = k) (hdup : q.dup = false) (hqos : q.qos ≠ .atMostOnce) :
    Coherent (x.accept now k q) where
  sound := h.sound.track ne ⟨q, rfl, hid, hqos, hdup⟩
  sender_connected := h.sender_connected
  receiver_connected := h.receiver_connected
  lanes := h.lane_accept now free hid
  open_accepted {j t} ht := by
    rw [Exchange.getElem?_accept] at ht
    split at ht
    · cases ht
      exact ⟨q, rfl, List.mem_append_right _ (List.mem_singleton.2 rfl)⟩
    · obtain ⟨r, hr, ha⟩ := h.open_accepted ht
      exact ⟨r, hr, List.mem_append_left _ ha⟩
  accepted_le := by
    simp only [Exchange.accept, List.mem_append, List.mem_singleton]
    rintro a (ha | rfl)
    · exact Nat.le_succ_of_le (h.accepted_le a ha)
    · exact Nat.le_refl _
  accepted_inj := by
    simp only [Exchange.accept, List.mem_append, List.mem_singleton]
    rintro a (ha | rfl) b (hb | rfl) eab
    · exact h.accepted_inj a ha b hb eab
    · have := h.accepted_le a ha
      omega
    · have := h.accepted_le b hb
      omega
    · rfl
  ahead parcel hm := by
    have same : ({ q with dup := false } : Publish) = q := by rw [← hdup]
    have opened := x.getElem?_accept now k q q.packetId
    rcases List.mem_append.1 hm with hm | hm
    · exact (h.ahead parcel hm).accept free now q
    · rw [List.mem_singleton.1 hm]
      refine ⟨hqos, _, rfl, by simp [Exchange.accept, same], fun _ => ⟨x.opening now k q, ?_, rfl⟩⟩
      rwa [if_pos hid.symm] at opened
  back := h.back
  delivered d hd := by
    obtain ⟨n, hn, ha⟩ := h.delivered d hd
    exact ⟨n, hn, List.mem_append_left _ ha⟩
  ended a ha eq := by
    rcases List.mem_append.1 ha with ha | ha
    · obtain ⟨j, t, ht, et⟩ | hc := h.ended a ha eq
      · exact .inl ⟨j, t, Exchange.getElem?_accept_of_eq_some free now q ht, et⟩
      · exact .inr hc
    · rw [List.mem_singleton.1 ha]
      exact .inl ⟨k, x.opening now k q, by rw [Exchange.getElem?_accept, if_pos rfl], rfl⟩
  completed n hn := by
    obtain ⟨hle, hne⟩ := h.completed n hn
    refine ⟨Nat.le_succ_of_le hle, fun j t ht => ?_⟩
    rw [Exchange.getElem?_accept] at ht
    split at ht
    · cases ht
      exact Nat.ne_of_gt (Nat.lt_succ_of_le hle)
    · exact hne j t ht

theorem publish (now : Time) (p : Publish) : Coherent (x.publish now p) := by
  obtain e | ⟨k, q, free, ne, hid, hdup, hqos, e⟩ := publish_cases (x := x) now p
  · rwa [e]
  · rw [e]
    exact h.accept now free ne hid hdup hqos

end Coherent

/-- The same transactions are open, as far as numbers and packets go. -/
def SameOpen (s s' : Session) : Prop :=
  ∀ k : UInt16, (s'.outgoing[k]?).map (fun t => (t.order, t.packet)) =
    (s.outgoing[k]?).map fun t => (t.order, t.packet)

theorem SameOpen.exists {s s' : Session} (h : SameOpen s s') {k : UInt16} {t : Transaction}
    (ht : s.outgoing[k]? = some t) :
    ∃ u, s'.outgoing[k]? = some u ∧ u.order = t.order ∧ u.packet = t.packet := by
  have := h k
  rw [ht, Option.map_some, Option.map_eq_some_iff] at this
  obtain ⟨u, hu, e⟩ := this
  simp only [Prod.mk.injEq] at e
  exact ⟨u, hu, e⟩

theorem SameOpen.symm {s s' : Session} (h : SameOpen s s') : SameOpen s' s := fun k => (h k).symm

def SamePhases (s s' : Session) : Prop :=
  ∀ k : UInt16, (s'.outgoing[k]?).map (fun t => (t.order, t.packet, t.phase)) =
    (s.outgoing[k]?).map fun t => (t.order, t.packet, t.phase)

theorem SamePhases.sameOpen {s s' : Session} (h : SamePhases s s') : SameOpen s s' := by
  intro k
  simpa [Option.map_map, Function.comp_def] using
    congrArg (Option.map fun o : Nat × Packet × Phase => (o.1, o.2.1)) (h k)

theorem SamePhases.stageOf_eq {s s' : Session} (h : SamePhases s s') (k : UInt16) :
    stageOf s'.outgoing[k]? = stageOf s.outgoing[k]? := by
  have := h k
  rcases hx : s.outgoing[k]? with _ | t
  · rw [hx, Option.map_none, Option.map_eq_none_iff] at this
    rw [this]
  · rw [hx, Option.map_some, Option.map_eq_some_iff] at this
    obtain ⟨u, hu, e⟩ := this
    simp only [Prod.mk.injEq] at e
    rw [hu, stageOf, stageOf, Transaction.isPublish_congr e.2.1, e.2.2]

theorem onItsWay_of_sameOpen {x y : Exchange} (h : SameOpen x.sender y.sender)
    (ha : y.accepted = x.accepted) {parcel : Parcel} (hp : x.OnItsWay parcel) :
    y.OnItsWay parcel := by
  unfold Exchange.OnItsWay at hp ⊢
  split
  · next p e =>
    simp only [e] at hp
    obtain ⟨hq, n, hn, hm, ho⟩ := hp
    refine ⟨hq, n, hn, ha ▸ hm, fun eq => ?_⟩
    obtain ⟨t, ht, et⟩ := ho eq
    obtain ⟨u, hu, eu, -⟩ := h.exists ht
    exact ⟨u, hu, eu.trans et⟩
  · trivial
  · simp_all

theorem copies_congr {x y : Exchange} (h : y.delivered = x.delivered) (n : Nat) :
    y.copies n = x.copies n := by
  rw [Exchange.copies, Exchange.copies, h]

theorem copies_of_sameOpen {x y : Exchange} (h : SameOpen x.sender y.sender)
    (hd : y.delivered = x.delivered) (k : UInt16) : (y.lane k).copies = (x.lane k).copies := by
  simp only [Exchange.lane, copies_congr hd]
  rcases hx : x.sender.outgoing[k]? with _ | t
  · have := h k
    rw [hx, Option.map_none, Option.map_eq_none_iff] at this
    rw [this]
  · obtain ⟨u, hu, eo, ep⟩ := h.exists hx
    rw [hu, Option.elim_some, Option.elim_some, Transaction.isPublish_congr ep, eo]

namespace Coherent

variable {x : Exchange} (h : Coherent x)
include h

theorem of_sameOpen {y : Exchange} (sound : y.sender.IsSound)
    (sender_connected : y.sender.connection = .connected)
    (receiver_connected : y.receiver.connection = .connected)
    (ho : SameOpen x.sender y.sender) (hl : y.sender.lastOrder = x.sender.lastOrder)
    (ha : y.accepted = x.accepted) (hd : y.delivered = x.delivered)
    (hc : y.completed = x.completed) (lanes : ∀ k, (y.lane k).Ok)
    (ahead : ∀ parcel ∈ y.ahead, y.OnItsWay parcel) (back : ∀ packet ∈ y.back, IsAnswer packet) :
    Coherent y where
  sound := sound
  sender_connected := sender_connected
  receiver_connected := receiver_connected
  lanes := lanes
  open_accepted ht := by
    obtain ⟨u, hu, eo, ep⟩ := ho.symm.exists ht
    obtain ⟨p, hp, hm⟩ := h.open_accepted hu
    exact ⟨p, ep ▸ hp, by rwa [← eo, ha]⟩
  accepted_le := by
    rw [ha, hl]
    exact h.accepted_le
  accepted_inj := by
    rw [ha]
    exact h.accepted_inj
  ahead := ahead
  back := back
  delivered := by
    rw [ha, hd]
    exact h.delivered
  ended a hm eq := by
    rw [ha] at hm
    rw [copies_congr hd]
    obtain ⟨k, t, ht, et⟩ | hc := h.ended a hm eq
    · obtain ⟨u, hu, eu, -⟩ := ho.exists ht
      exact .inl ⟨k, u, hu, eu.trans et⟩
    · exact .inr hc
  completed n hn := by
    rw [hc] at hn
    rw [hl]
    obtain ⟨hle, hne⟩ := h.completed n hn
    refine ⟨hle, fun k t ht => ?_⟩
    obtain ⟨u, hu, eu, -⟩ := ho.symm.exists ht
    exact eu ▸ hne k u hu

theorem sendAgain {s : Session} (sound : s.IsSound) (connected : s.connection = .connected)
    (hl : s.lastOrder = x.sender.lastOrder) (same : SamePhases x.sender s) {k : UInt16}
    {t : Transaction} (ht : s.outgoing[k]? = some t) :
    Coherent { x with sender := s, ahead := x.ahead ++ [stamp s t.resend] } := by
  have fits := sound.fits ht
  obtain ⟨u, hu, eo, ep⟩ := same.sameOpen.symm.exists ht
  obtain ⟨p, hp, ha⟩ := h.open_accepted hu
  rw [ep] at hp
  rw [eo] at ha
  let y : Exchange := { x with sender := s, ahead := x.ahead ++ [stamp s t.resend] }
  have still : SameOpen x.sender y.sender := same.sameOpen
  refine h.of_sameOpen sound connected h.receiver_connected still hl rfl rfl rfl
    (fun j => ?_) ?_ h.back
  · have lane : y.lane j =
        { x.lane j with ahead := (x.lane j).ahead ++ (signal? j t.resend).toList } :=
      Lane.ext (same.stageOf_eq j) rfl (copies_of_sameOpen still rfl j)
        (filterMap_concat _ _ _) rfl
    change (y.lane j).Ok
    rw [lane, signal?_resend fits ⟨p, hp⟩]
    split
    · next ej =>
      have stage : (x.lane j).stage = stageOf (some t) := by
        rw [← ht, ej]
        exact (same.stageOf_eq j).symm
      rw [← stage]
      exact (h.lanes j).resend
    · simpa using h.lanes j
  · simp only [List.mem_append, List.mem_singleton]
    rintro parcel (hm | rfl)
    · exact onItsWay_of_sameOpen still rfl (h.ahead parcel hm)
    · exact onItsWay_resend fits ht hp ha

theorem retransmit (now : Time) (k maxRetries : UInt16) :
    Coherent (x.retransmit now k maxRetries) := by
  unfold Exchange.retransmit
  have sound := Session.retransmit_isSound h.sound now k maxRetries
  obtain ⟨-, e⟩ | ⟨t, ht, e | ⟨-, e⟩⟩ := x.sender.retransmit_cases now k maxRetries
  · rwa [e]
  · rwa [e]
  rw [e] at sound ⊢
  refine h.sendAgain (k := k) (t := { t with retries := t.retries + 1, lastSent := now }) sound
    h.sender_connected rfl (fun j => ?_) (by simp)
  simp only [Std.TreeMap.getElem?_insert, Std.LawfulEqCmp.compare_eq_iff_eq]
  split
  · next ej =>
    rw [← ej, ht]
    rfl
  · rfl

theorem filterMap_replay {s : Session} (sound : s.IsSound) (same : s.outgoing = x.sender.outgoing)
    (now : Time) (k : UInt16) :
    (s.replay now).2.filterMap (signal? k) = (x.lane k).stage.signal?.toList := by
  refine (s.filterMap_replay now (signal? k) k fun j t ht ne => ?_).trans ?_
  · obtain ⟨p, hp, -⟩ := h.open_accepted (same ▸ ht)
    rw [signal?_resend (sound.fits ht) ⟨p, hp⟩, if_neg ne]
  · rw [same, Exchange.lane]
    rcases ht : x.sender.outgoing[k]? with _ | t
    · rfl
    · obtain ⟨p, hp, -⟩ := h.open_accepted ht
      rw [Option.bind_some, signal?_resend (h.sound.fits ht) ⟨p, hp⟩, if_pos rfl]

theorem reset (now : Time) (toSender toReceiver : ConnAck) :
    Coherent (x.reset now toSender toReceiver) := by
  let s₀ := greet x.sender.disconnected now toSender
  let s := (s₀.replay now).1
  have greeted : s₀ = _ := greet_eq rfl now toSender
  have outgoing : s₀.outgoing = x.sender.outgoing := by
    rw [greeted]
    rfl
  have sound₀ : s₀.IsSound := h.sound.congr outgoing (by rw [greeted]; rfl)
  have get : ∀ k : UInt16, s.outgoing[k]? =
      (x.sender.outgoing[k]?).map fun t => { t with retries := 0, lastSent := now } := by
    intro k
    rw [Session.getElem?_replay, outgoing]
  have same : SamePhases x.sender s := by
    intro k
    rw [get, Option.map_map]
    rfl
  have receiver : greet x.receiver.disconnected now toReceiver = _ := greet_eq rfl now toReceiver
  let y := x.reset now toSender toReceiver
  have still : SameOpen x.sender y.sender := same.sameOpen
  refine h.of_sameOpen (y := y) (Session.replay_isSound sound₀ now) ?_ ?_ still ?_ rfl rfl rfl
    (fun k => ?_) ?_ (by simp [y, Exchange.reset])
  · change s₀.connection = .connected
    rw [greeted]
  · change (greet x.receiver.disconnected now toReceiver).connection = .connected
    rw [receiver]
  · change s₀.lastOrder = x.sender.lastOrder
    rw [greeted]
    rfl
  · have held : (y.lane k).held = (x.lane k).held := by
      change (greet x.receiver.disconnected now toReceiver).received.contains k = _
      rw [receiver]
      rfl
    have ahead : (y.lane k).ahead = (x.lane k).stage.signal?.toList := by
      change ((s₀.replay now).2.map (stamp s)).filterMap _ = _
      rw [List.filterMap_map]
      exact h.filterMap_replay sound₀ outgoing now k
    have lane : y.lane k =
        { x.lane k with ahead := (x.lane k).stage.signal?.toList, back := [] } :=
      Lane.ext (same.stageOf_eq k) held (copies_of_sameOpen still rfl k) ahead rfl
    rw [lane]
    exact (h.lanes k).reset
  · intro parcel hm
    obtain ⟨packet, hp, rfl⟩ := List.mem_map.1 hm
    replace hp : packet ∈ (s₀.replay now).2 := hp
    obtain ⟨k, t, ht, rfl⟩ := Session.mem_replay.1 hp
    rw [outgoing] at ht
    obtain ⟨p, hp, ha⟩ := h.open_accepted ht
    exact onItsWay_resend (x := y) (t := { t with retries := 0, lastSent := now })
      ((h.sound.fits ht).touch 0 now) ((get k).trans (by rw [ht]; rfl)) hp ha

end Coherent

end MqttClient.Delivery
