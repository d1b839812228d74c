import MqttClient.Proofs.Session.Endings

/-! What goes out for a transaction over any history of a session: the packet that opened it, then
the same packet again and again, and for an exactly-once message that the broker has taken, from
then on only its release. What an operation gives out for a transaction is said once, by the cases
of one relation; the course of every transaction follows by induction on the history. -/

namespace MqttClient

/-- What goes out later for a packet that opened a transaction, before or after its release. Only a
message tells that it was sent before. -/
def Packet.later (packet : Packet) (released : Bool) : Packet :=
  if released then .pubRel { packetId := Engine.packetIdOf packet, reason := .success }
  else match packet with
    | .publish p => .publish { p with dup := true }
    | packet => packet

def Packet.standsAlone : Packet → Bool
  | .publish p => p.qos == .atMostOnce
  | .subscribe _ | .unsubscribe _ | .pubRel _ => false
  | _ => true

theorem Transaction.Fits.packetIdOf_packet {t : Transaction} {k : UInt16} (h : t.Fits k) :
    Engine.packetIdOf t.packet = k := by
  have held := h.holdsPacket
  have hk := h.packetId_eq
  unfold HoldsPacket at held
  split at held
  all_goals
    obtain ⟨p, hp, held⟩ := held
    rw [hp]
  · exact held.1.trans hk
  · exact held.1.trans hk
  · exact held.trans hk
  · exact held.trans hk

theorem Transaction.Fits.resend_eq {t : Transaction} {k : UInt16} (h : t.Fits k) :
    t.resend = t.packet.later (t.phase == .released) := by
  have held := h.holdsPacket
  unfold HoldsPacket at held
  split at held
  · next phase =>
    obtain ⟨p, hp, -⟩ := held
    simp [resend, Packet.later, hp, phase]
  · next phase =>
    obtain ⟨p, hp, hid, -⟩ := held
    simp [resend, Packet.later, hp, phase, Engine.packetIdOf, hid]
  · next phase =>
    obtain ⟨p, hp, -⟩ := held
    simp [resend, Packet.later, hp, phase]
  · next phase =>
    obtain ⟨p, hp, -⟩ := held
    simp [resend, Packet.later, hp, phase]

namespace Session

def outputs (s : Session) : Operation → List Packet
  | .send now r => (s.send now r).2.toOption.toList
  | .receive now p => ((s.receive now p).2.toOption.getD none).toList
  | .replay now => (s.replay now).2
  | .retransmit now k maxRetries =>
    match (s.retransmit now k maxRetries).2 with
    | .resend p => [p]
    | _ => []
  | _ => []

/-- The open transaction that a packet belongs to. A release is that of an exactly-once message. -/
def owner? (s : Session) : Packet → Option Transaction
  | .pubRel a => (s.transaction? a.packetId).filter (·.isPublish .exactlyOnce)
  | packet => s.transaction? (Engine.packetIdOf packet)

def issuedBy (s : Session) (op : Operation) (n : Nat) : List Packet :=
  (s.outputs op).filter fun packet => ((s.step op).owner? packet).map (·.order) = some n

def issued (past : List (Session × Operation)) (n : Nat) : List Packet :=
  past.flatMap fun x => x.1.issuedBy x.2 n

/-- The release that answers an acknowledgement to which no exactly-once message is open. -/
def Unmatched (s : Session) (op : Operation) (packet : Packet) : Prop :=
  ∃ now a, op = .receive now (.pubRec a) ∧
    packet = .pubRel { packetId := a.packetId, reason := .packetIdentifierNotFound } ∧
    ∀ t, s.outgoing[a.packetId]? = some t → t.isPublish .exactlyOnce = false

theorem owner?_of_ne_pubRel (s : Session) {packet : Packet} (h : ∀ a, packet ≠ .pubRel a) :
    s.owner? packet = s.transaction? (Engine.packetIdOf packet) := by
  cases packet with
  | pubRel a => exact absurd rfl (h a)
  | _ => rfl

theorem owner?_of_standsAlone {s : Session} (h : s.IsSound) {packet : Packet}
    (alone : packet.standsAlone = true) (hid : Engine.packetIdOf packet = 0) :
    s.owner? packet = none := by
  rw [owner?_of_ne_pubRel s (by rintro a rfl; cases alone), hid]
  -- no transaction has the identifier zero
  exact h.getElem?_zero

theorem getElem?_of_insert {s s' : Session} {k : UInt16} {u : Transaction}
    (h : s'.outgoing = s.outgoing.insert k u) : s'.outgoing[k]? = some u := by
  rw [h]
  exact Std.TreeMap.getElem?_insert_self

theorem getElem?_replay_of_some {s : Session} {k : UInt16} {t : Transaction}
    (ht : s.outgoing[k]? = some t) (now : Time) :
    (s.step (.replay now)).outgoing[k]? = some { t with retries := 0, lastSent := now } := by
  rw [step, getElem?_replay, ht]
  rfl

theorem owner?_pubRel {s : Session} {a : Ack ReleaseReason} {u : Transaction}
    (hu : s.outgoing[a.packetId]? = some u) (hq : u.isPublish .exactlyOnce = true) :
    s.owner? (.pubRel a) = some u := by
  simp [owner?, transaction?, hu, hq]

theorem owner?_resend {s : Session} {t u : Transaction} {k : UInt16} (fits : t.Fits k)
    (hu : s.outgoing[k]? = some u) (same : u.packet = t.packet) :
    s.owner? t.resend = some u := by
  obtain ⟨p, -, -, hid, -, he⟩ | ⟨p, -, hp, hq, he⟩ | ⟨p, -, -, hid, he⟩ | ⟨p, -, -, hid, he⟩ :=
    fits.resend_cases
  all_goals rw [he]
  · subst hid
    exact hu
  · exact owner?_pubRel hu (Transaction.isPublish_iff.2 ⟨p, same.trans hp, hq⟩)
  · subst hid
    exact hu
  · subst hid
    exact hu

theorem kind_of_send {s s' : Session} {now : Time} {r : Request} {packet : Packet}
    (h : s.send now r = (s', .ok packet)) :
    (∀ a, packet ≠ .pubRel a) ∧ (¬ r.Opens → packet.standsAlone = true) := by
  cases r with
  | connect p =>
    rw [send] at h
    split at h <;> cases h
    exact ⟨by simp, fun _ => rfl⟩
  | publish p =>
    by_cases hq : p.qos = .atMostOnce
    · obtain ⟨rfl, -⟩ := send_publish_atMostOnce hq h
      exact ⟨by simp, fun _ => by simp [Packet.standsAlone, hq]⟩
    · rw [send, sendPublish, if_neg hq] at h
      obtain ⟨k, -, -, -, rfl, -⟩ := start_eq_ok h
      exact ⟨by simp, fun closed => absurd hq closed⟩
  | subscribe p =>
    obtain ⟨k, -, -, -, rfl, -⟩ := start_eq_ok h
    exact ⟨by simp, fun closed => absurd trivial closed⟩
  | unsubscribe p =>
    obtain ⟨k, -, -, -, rfl, -⟩ := start_eq_ok h
    exact ⟨by simp, fun closed => absurd trivial closed⟩
  | pingReq =>
    rw [send, sendPing] at h
    split at h
    · split at h <;> cases h
      exact ⟨by simp, fun _ => rfl⟩
    · cases h
  | disconnect p =>
    cases h
    exact ⟨by simp, fun _ => rfl⟩

theorem owner?_of_opens {s s' : Session} {now : Time} {r : Request} {packet : Packet}
    (hr : r.Opens) (h : s.send now r = (s', .ok packet)) :
    ∃ (k : UInt16) (t : Transaction), s.opened (.send now r) = [t] ∧ t.packet = packet ∧
      t.order = s.lastOrder + 1 ∧ s'.outgoing = s.outgoing.insert k t ∧
      s'.owner? packet = some t := by
  have unreleased := (kind_of_send h).1
  obtain ⟨k, phase, -, -, carries, rfl⟩ := send_of_opens hr h
  refine ⟨k, ⟨k, packet, phase, 0, now, s.lastOrder + 1⟩, ?_, rfl, rfl, rfl, ?_⟩
  · simp [opened, h, carries, transaction?, track]
  · rw [owner?_of_ne_pubRel _ unreleased, carries]
    exact Std.TreeMap.getElem?_insert_self

theorem outputs_receive {s s' : Session} {now : Time} {p : Packet} {reply : Option Packet}
    (h : s.receive now p = (s', .ok reply)) : s.outputs (.receive now p) = reply.toList := by
  simp [outputs, h, Except.toOption]

theorem mem_outputs_receive {s : Session} {now : Time} {p reply : Packet} :
    reply ∈ s.outputs (.receive now p) ↔ ∃ s', s.receive now p = (s', .ok (some reply)) := by
  rcases h : s.receive now p with ⟨s', e | _ | packet⟩
  · simp [outputs, h, Except.toOption]
  · simp [outputs_receive h]
  · simp [outputs_receive h, eq_comm]

theorem kind_of_receive {s : Session} {now : Time} {p reply : Packet}
    (h : reply ∈ s.outputs (.receive now p)) (other : ∀ a, p ≠ .pubRec a) :
    reply.standsAlone = true ∧ Engine.packetIdOf reply = 0 := by
  obtain ⟨s', h⟩ := mem_outputs_receive.1 h
  obtain ⟨q, -, rfl | rfl⟩ | ⟨a, reason, rfl, -⟩ | ⟨a, reason, -, rfl⟩ := reply_cases h
  · exact ⟨rfl, rfl⟩
  · exact ⟨rfl, rfl⟩
  · exact absurd rfl (other a)
  · exact ⟨rfl, rfl⟩

def Unmoved (s : Session) (op : Operation) (n : Nat) : Prop :=
  ∀ {k : UInt16} {u : Transaction}, (s.step op).outgoing[k]? = some u → u.order = n →
    ∃ t, s.outgoing[k]? = some t ∧ t.content = u.content

/-- What an operation gives out for the transaction of that number, and what becomes of it. -/
inductive Emits (s : Session) (op : Operation) (n : Nat) : List Packet → Prop
  | nothing (unmoved : s.Unmoved op n) : Emits s op n []
  | opened {t : Transaction} (opened_eq : s.opened op = [t]) (order_eq : t.order = n) :
    Emits s op n [t.packet]
  | again {k : UInt16} {t : Transaction} (ht : s.outgoing[k]? = some t) (order_eq : t.order = n)
    (unmoved : s.Unmoved op n) : Emits s op n [t.resend]
  | released {now : Time} {a : Ack PublishReason} {t : Transaction}
    (hop : op = .receive now (.pubRec a)) (success : a.reason.isSuccess = true)
    (ht : s.outgoing[a.packetId]? = some t) (order_eq : t.order = n)
    (hq : t.isPublish .exactlyOnce = true)
    (outgoing_eq : (s.step op).outgoing = s.outgoing.insert a.packetId
      { t with phase := .released, retries := 0, lastSent := now }) :
    Emits s op n [.pubRel { packetId := a.packetId, reason := .success }]

theorem unmoved_of_outgoing_eq {s : Session} {op : Operation} (n : Nat)
    (h : (s.step op).outgoing = s.outgoing) : s.Unmoved op n := by
  intro k u hu _
  exact ⟨u, h ▸ hu, rfl⟩

theorem unmoved_of_erase {s : Session} {op : Operation} {k : UInt16} (n : Nat)
    (h : (s.step op).outgoing = s.outgoing.erase k) : s.Unmoved op n := by
  intro j u hu _
  rw [h] at hu
  exact ⟨u, outgoing_of_forget hu, rfl⟩

theorem unmoved_of_insert {s : Session} {op : Operation} {k : UInt16} {u : Transaction} {n : Nat}
    (h : (s.step op).outgoing = s.outgoing.insert k u)
    (same : u.order = n → ∃ t, s.outgoing[k]? = some t ∧ t.content = u.content) :
    s.Unmoved op n := by
  intro j v hv order
  rw [h, Std.TreeMap.getElem?_insert] at hv
  split at hv
  · next here =>
    rw [Std.LawfulEqCmp.compare_eq_iff_eq] at here
    cases hv
    exact here ▸ same order
  · exact ⟨v, hv, rfl⟩

theorem issuedBy_of_singleton {s : Session} {op : Operation} {packet : Packet}
    (h : s.outputs op = [packet]) (n : Nat) :
    s.issuedBy op n =
      if ((s.step op).owner? packet).map (·.order) = some n then [packet] else [] := by
  rw [issuedBy, h, List.filter_cons, List.filter_nil]
  simp only [decide_eq_true_eq]

theorem issuedBy_of_nil {s : Session} {op : Operation} (h : s.outputs op = []) (n : Nat) :
    s.issuedBy op n = [] := by
  rw [issuedBy, h, List.filter_nil]

theorem emits_send {s : Session} (h : s.IsSound) (now : Time) (r : Request) (n : Nat) :
    s.Emits (.send now r) n (s.issuedBy (.send now r) n) := by
  rcases hs : s.send now r with ⟨s', e | packet⟩
  · have out : s.outputs (.send now r) = [] := by simp [outputs, hs, Except.toOption]
    rw [issuedBy_of_nil out]
    refine .nothing (unmoved_of_outgoing_eq n ?_)
    rw [step, hs, send_eq_error hs]
  · have out : s.outputs (.send now r) = [packet] := by simp [outputs, hs, Except.toOption]
    rw [issuedBy_of_singleton out, step, hs]
    by_cases hr : r.Opens
    · obtain ⟨k, t, opened_eq, rfl, -, outgoing_eq, owner⟩ := owner?_of_opens hr hs
      rw [owner]
      split
      · next order => exact .opened opened_eq (by simpa using order)
      · next other =>
        refine .nothing (unmoved_of_insert (k := k) (u := t) (by rw [step, hs, outgoing_eq]) ?_)
        exact fun order => absurd (congrArg some order) other
    · have hid := packetIdOf_of_not_opens hr hs
      have same := s.send_outgoing_of_not_opens hr now
      rw [hs] at same
      have sound : s'.IsSound := by
        have sound := send_isSound h now r
        rwa [hs] at sound
      rw [owner?_of_standsAlone sound ((kind_of_send hs).2 hr) hid, if_neg (by simp)]
      exact .nothing (unmoved_of_outgoing_eq n (by rw [step, hs, same]))

theorem emits_pubRec (s : Session) (now : Time) (a : Ack PublishReason) (n : Nat) :
    s.Emits (.receive now (.pubRec a)) n (s.issuedBy (.receive now (.pubRec a)) n) := by
  obtain ⟨none, he⟩ | ⟨t, ht, hq, ⟨success, he⟩ | ⟨-, he⟩⟩ := s.receive_pubRec_cases now a
  · have same : (s.step (.receive now (.pubRec a))).outgoing = s.outgoing := by rw [step, he]
    have owner : (s.step (.receive now (.pubRec a))).owner? (.pubRel
        { packetId := a.packetId, reason := .packetIdentifierNotFound }) = Option.none := by
      rw [owner?, transaction?, same, Option.filter_eq_none_iff]
      intro t ht
      simp [none t ht]
    rw [issuedBy_of_singleton (outputs_receive he), owner, if_neg (by simp)]
    exact .nothing (unmoved_of_outgoing_eq n same)
  · have outgoing : (s.step (.receive now (.pubRec a))).outgoing = s.outgoing.insert a.packetId
        { t with phase := .released, retries := 0, lastSent := now } := by rw [step, he]
    have owner := owner?_pubRel (a := { packetId := a.packetId, reason := .success })
      (getElem?_of_insert outgoing) hq
    rw [issuedBy_of_singleton (outputs_receive he), owner]
    split
    · next order =>
      exact .released rfl success ht (by simpa using order) hq outgoing
    · next other =>
      refine .nothing (unmoved_of_insert outgoing fun order => ?_)
      exact absurd (congrArg some order) other
  · rw [issuedBy_of_nil (outputs_receive he)]
    refine .nothing (unmoved_of_erase (k := a.packetId) n ?_)
    rw [step, he]
    rfl

theorem emits_receive {s : Session} (h : s.IsSound) (now : Time) (p : Packet) (n : Nat) :
    s.Emits (.receive now p) n (s.issuedBy (.receive now p) n) := by
  by_cases hp : ∃ a, p = .pubRec a
  · obtain ⟨a, rfl⟩ := hp
    exact s.emits_pubRec now a n
  · have other : ∀ a, p ≠ .pubRec a := fun a e => hp ⟨a, e⟩
    have none : s.issuedBy (.receive now p) n = [] := by
      rw [issuedBy, List.filter_eq_nil_iff]
      intro reply hm
      obtain ⟨kind, hid⟩ := kind_of_receive hm other
      simp [owner?_of_standsAlone (step_isSound h _) kind hid]
    rw [none]
    obtain ⟨s', events, hearing, he⟩ := s.receive_hearing now p
    have outgoing : (s.step (.receive now p)).outgoing = s'.outgoing := by rw [step, he]
    cases hearing with
    | passed outgoing_eq => exact .nothing (unmoved_of_outgoing_eq n (outgoing.trans outgoing_eq))
    | @released a => exact absurd rfl (other a)
    | ended => exact .nothing (unmoved_of_erase n outgoing)

theorem emits_replay {s : Session} (h : s.IsSound) (now : Time) (n : Nat) :
    s.Emits (.replay now) n (s.issuedBy (.replay now) n) := by
  have unmoved : s.Unmoved (.replay now) n := by
    intro k u hu _
    rw [step, getElem?_replay, Option.map_eq_some_iff] at hu
    obtain ⟨t, ht, rfl⟩ := hu
    exact ⟨t, ht, rfl⟩
  have owner : ∀ {j : UInt16} {t : Transaction}, s.outgoing[j]? = some t →
      ((s.step (.replay now)).owner? t.resend).map (·.order) = some t.order := by
    intro j t ht
    rw [owner?_resend (h.fits ht) (getElem?_replay_of_some ht now) rfl]
    rfl
  by_cases hn : ∃ (k : UInt16) (t : Transaction), s.outgoing[k]? = some t ∧ t.order = n
  · obtain ⟨k, t, ht, rfl⟩ := hn
    have only := s.filterMap_replay now (Option.guard fun packet =>
      ((s.step (.replay now)).owner? packet).map (·.order) = some t.order) k fun j u hu ne => by
        have other : u.order ≠ t.order := fun order => ne (h.order_inj hu ht order)
        simp [Option.guard, owner hu, other]
    rw [issuedBy, ← List.filterMap_eq_filter, outputs, only, ht]
    simp only [Option.bind_some, Option.guard, owner ht, decide_true, if_true, Option.toList_some]
    exact .again ht rfl unmoved
  · have none : s.issuedBy (.replay now) n = [] := by
      rw [issuedBy, List.filter_eq_nil_iff]
      intro packet hm
      obtain ⟨k, t, ht, rfl⟩ := mem_replay.1 hm
      simpa [owner ht] using fun order => hn ⟨k, t, ht, order⟩
    rw [none]
    exact .nothing unmoved

theorem emits_retransmit {s : Session} (h : s.IsSound) (now : Time) (k maxRetries : UInt16)
    (n : Nat) : s.Emits (.retransmit now k maxRetries) n
      (s.issuedBy (.retransmit now k maxRetries) n) := by
  obtain ⟨-, he⟩ | ⟨t, ht, he | ⟨-, he⟩⟩ := s.retransmit_cases now k maxRetries
  · rw [issuedBy_of_nil (by rw [outputs, he])]
    exact .nothing (unmoved_of_outgoing_eq n (by rw [step, he]))
  · rw [issuedBy_of_nil (by rw [outputs, he])]
    exact .nothing (unmoved_of_erase n (by rw [step, he]; rfl))
  · have outgoing : (s.step (.retransmit now k maxRetries)).outgoing =
        s.outgoing.insert k { t with retries := t.retries + 1, lastSent := now } := by rw [step, he]
    have unmoved : s.Unmoved (.retransmit now k maxRetries) n :=
      unmoved_of_insert outgoing fun _ => ⟨t, ht, rfl⟩
    have owner := owner?_resend (h.fits ht) (getElem?_of_insert outgoing) rfl
    rw [issuedBy_of_singleton (by rw [outputs, he]), owner]
    split
    · next order => exact .again ht (by simpa using order) unmoved
    · exact .nothing unmoved

theorem emits_of_step {s : Session} (h : s.IsSound) (op : Operation) (n : Nat) :
    s.Emits op n (s.issuedBy op n) := by
  cases op with
  | send now r => exact emits_send h now r n
  | receive now p => exact emits_receive h now p n
  | replay now => exact emits_replay h now n
  | retransmit now k maxRetries => exact emits_retransmit h now k maxRetries n
  | forget k => exact .nothing (unmoved_of_erase n rfl)
  | clean =>
    refine .nothing fun {k u} hu _ => ?_
    simp [step, clean] at hu
  | connecting =>
    refine .nothing (unmoved_of_outgoing_eq n ?_)
    simp only [step, connecting]
    split <;> rfl
  | disconnecting | disconnected | takeEvents => exact .nothing (unmoved_of_outgoing_eq n rfl)

theorem issued_append (past more : List (Session × Operation)) (n : Nat) :
    issued (past ++ more) n = issued past n ++ issued more n := List.flatMap_append

theorem issued_singleton (x : Session × Operation) (n : Nat) :
    issued [x] n = x.1.issuedBy x.2 n := by
  simp [issued]

/-- What has gone out for a transaction with that number and packet, until its release and since. -/
inductive Course (past : List (Session × Operation)) (n : Nat) (packet : Packet) : Bool → Prop
  | waiting {m : Nat} (issued_eq : issued past n = packet :: .replicate m (packet.later false)) :
    Course past n packet false
  | released {p : Publish} {before after : List (Session × Operation)} {x : Session × Operation}
    {m m' : Nat} (hp : packet = .publish p) (hq : p.qos = .exactlyOnce)
    (split : past = before ++ x :: after) (confirms : x.1.Confirms x.2 n)
    (first : issued before n = packet :: .replicate m (packet.later false))
    (later : issued (x :: after) n = .replicate m' (packet.later true)) : Course past n packet true

namespace Course

variable {past : List (Session × Operation)} {n : Nat} {packet : Packet} {released : Bool}
  {s : Session} {op : Operation}

theorem extend (h : Course past n packet released) {m : Nat}
    (he : s.issuedBy op n = .replicate m (packet.later released)) :
    Course (past ++ [(s, op)]) n packet released := by
  cases h with
  | @waiting j issued_eq =>
    refine .waiting (m := j + m) ?_
    rw [issued_append, issued_singleton, he, issued_eq, List.cons_append,
      List.replicate_append_replicate]
  | @released p before after x _ j hp hq split confirms first later =>
    have longer : past ++ [(s, op)] = before ++ x :: (after ++ [(s, op)]) := by
      rw [split, List.append_assoc, List.cons_append]
    have more : issued (x :: (after ++ [(s, op)])) n = .replicate (j + m) (packet.later true) := by
      rw [← List.cons_append, issued_append, issued_singleton, he, later,
        List.replicate_append_replicate]
    exact .released hp hq longer confirms first more

theorem release (h : Course past n packet released) {p : Publish} (hp : packet = .publish p)
    (hq : p.qos = .exactlyOnce) (confirms : s.Confirms op n)
    (he : s.issuedBy op n = [packet.later true]) : Course (past ++ [(s, op)]) n packet true := by
  cases h with
  | waiting issued_eq =>
    have taken : issued [(s, op)] n = .replicate 1 (packet.later true) := by
      rw [issued_singleton, he]
      rfl
    exact .released hp hq rfl confirms issued_eq taken
  | released hp hq split confirms first later =>
    exact (Course.released hp hq split confirms first later).extend (m := 1) he

end Course

theorem Turn.opened_cases {s : Session} {op : Operation} (h : s.Turn op) {t : Transaction}
    (ht : t ∈ s.opened op) :
    s.opened op = [t] ∧ t.order = s.lastOrder + 1 ∧ t.phase ≠ .released ∧
      ∃ k : UInt16, (s.step op).outgoing[k]? = some t := by
  cases h with
  | @opened k u _ order_eq phase_ne opened_eq _ _ outgoing_eq =>
    rw [opened_eq, List.mem_singleton] at ht
    subst ht
    refine ⟨opened_eq, order_eq, phase_ne, k, ?_⟩
    rw [outgoing_eq]
    exact Std.TreeMap.getElem?_insert_self
  | kept opened_eq => simp [opened_eq] at ht
  | released _ _ _ opened_eq => simp [opened_eq] at ht
  | ended _ _ opened_eq => simp [opened_eq] at ht
  | cleaned opened_eq => simp [opened_eq] at ht

theorem Emits.of_new {s : Session} (h : s.IsSound) {op : Operation} {n : Nat}
    {packets : List Packet} (e : s.Emits op n packets) (new : s.lastOrder < n) :
    ((∀ t ∈ s.opened op, t.order ≠ n) ∧ packets = []) ∨
      ∃ t, s.opened op = [t] ∧ t.order = n ∧ packets = [t.packet] := by
  cases e with
  | nothing unmoved =>
    refine .inl ⟨fun t ht order => ?_, rfl⟩
    obtain ⟨-, -, -, k, hu⟩ := (turn_of_step h op).opened_cases ht
    obtain ⟨v, hv, same⟩ := unmoved hu order
    have old := h.order_le hv
    have same : v.order = t.order := congrArg (·.1) same
    omega
  | opened opened_eq order_eq => exact .inr ⟨_, opened_eq, order_eq, rfl⟩
  | again ht order_eq =>
    have old := h.order_le ht
    omega
  | released _ _ ht order_eq =>
    have old := h.order_le ht
    omega

/-- A transaction took its course, and as long as it is open its phase tells how far it came. -/
def Follows (past : List (Session × Operation)) (s : Session) (t : Transaction) : Prop :=
  ∃ released, Course past t.order t.packet released ∧
    ∀ {k : UInt16} {u : Transaction}, s.outgoing[k]? = some u → u.order = t.order →
      u.packet = t.packet ∧ (u.phase == .released) = released

theorem Follows.opened {past : List (Session × Operation)} {s : Session} (h : s.IsSound)
    {op : Operation} {t : Transaction} (fresh : issued past t.order = []) (ht : t ∈ s.opened op) :
    Follows (past ++ [(s, op)]) (s.step op) t := by
  obtain ⟨opened_eq, order, phase, k, hk⟩ := (turn_of_step h op).opened_cases ht
  have issues : s.issuedBy op t.order = [t.packet] := by
    obtain ⟨none, -⟩ | ⟨u, one, -, issues⟩ := (emits_of_step h op t.order).of_new h (by omega)
    · exact absurd rfl (none t ht)
    · rw [opened_eq] at one
      cases one
      exact issues
  refine ⟨false, .waiting (m := 0) ?_, fun {j u} hu same => ?_⟩
  · rw [issued_append, issued_singleton, fresh, issues]
    rfl
  · obtain rfl := (step_isSound h op).order_inj hu hk same
    cases hu.symm.trans hk
    exact ⟨rfl, by simpa using phase⟩

theorem Follows.step {past : List (Session × Operation)} {s : Session} (h : s.IsSound)
    (op : Operation) {t : Transaction} (old : t.order ≤ s.lastOrder) (follows : Follows past s t) :
    Follows (past ++ [(s, op)]) (s.step op) t := by
  obtain ⟨released, course, same⟩ := follows
  have stays : s.Unmoved op t.order → ∀ {k : UInt16} {u : Transaction},
      (s.step op).outgoing[k]? = some u → u.order = t.order →
        u.packet = t.packet ∧ (u.phase == .released) = released := by
    intro unmoved k u hu order
    obtain ⟨v, hv, content⟩ := unmoved hu order
    simp only [Transaction.content, Prod.mk.injEq] at content
    obtain ⟨order', packet', phase'⟩ := content
    rw [← packet', ← phase']
    exact same hv (order'.trans order)
  have emits := emits_of_step h op t.order
  generalize issues : s.issuedBy op t.order = packets at emits
  cases emits with
  | nothing unmoved => exact ⟨released, course.extend (m := 0) issues, stays unmoved⟩
  | opened opened_eq order_eq =>
    obtain ⟨-, order, -⟩ := (turn_of_step h op).opened_cases (by rw [opened_eq]; exact .head _)
    omega
  | @again k v hv order_eq unmoved =>
    obtain ⟨packet, phase⟩ := same hv order_eq
    rw [(h.fits hv).resend_eq, packet, phase] at issues
    exact ⟨released, course.extend (m := 1) issues, stays unmoved⟩
  | @released now a v hop success hv order_eq hq outgoing_eq =>
    obtain ⟨packet, -⟩ := same hv order_eq
    obtain ⟨p, hp, exactly⟩ := Transaction.isPublish_iff.1 hq
    have confirms : s.Confirms op t.order := ⟨now, a, v, hop, success, hv, order_eq⟩
    have id : Engine.packetIdOf t.packet = a.packetId := packet ▸ (h.fits hv).packetIdOf_packet
    refine ⟨true, course.release (packet ▸ hp) exactly confirms ?_, fun {k u} hu order => ?_⟩
    · rw [issues, ← id]
      rfl
    · rw [outgoing_eq, Std.TreeMap.getElem?_insert] at hu
      split at hu
      · cases hu
        exact ⟨packet, rfl⟩
      · next other =>
        rw [h.order_inj hu hv (order.trans order_eq.symm)] at other
        exact absurd Std.ReflCmp.compare_self other

theorem owner?_cases {s : Session} (h : s.IsSound) {op : Operation} {packet : Packet}
    (hm : packet ∈ s.outputs op) :
    packet.standsAlone = true ∨ s.Unmatched op packet ∨
      ∃ (k : UInt16) (u : Transaction), (s.step op).outgoing[k]? = some u ∧
        (s.step op).owner? packet = some u := by
  cases op with
  | send now r =>
    rcases hs : s.send now r with ⟨s', e | sent⟩
    · simp [outputs, hs, Except.toOption] at hm
    · obtain rfl : packet = sent := by simpa [outputs, hs, Except.toOption] using hm
      by_cases hr : r.Opens
      · obtain ⟨k, t, -, -, -, outgoing_eq, owner⟩ := owner?_of_opens hr hs
        exact .inr (.inr ⟨k, t, by rw [step, hs, getElem?_of_insert outgoing_eq],
          by rw [step, hs, owner]⟩)
      · exact .inl ((kind_of_send hs).2 hr)
  | receive now p =>
    by_cases hp : ∃ a, p = .pubRec a
    · obtain ⟨a, rfl⟩ := hp
      obtain ⟨none, he⟩ | ⟨t, ht, hq, ⟨-, he⟩ | ⟨-, he⟩⟩ := s.receive_pubRec_cases now a
      all_goals rw [outputs_receive he] at hm
      · exact .inr (.inl ⟨now, a, rfl, List.mem_singleton.1 hm, none⟩)
      · obtain rfl := List.mem_singleton.1 hm
        have here := getElem?_of_insert (congrArg Session.outgoing (congrArg Prod.fst he))
        exact .inr (.inr ⟨a.packetId, _, here, owner?_pubRel here hq⟩)
      · cases hm
    · exact .inl (kind_of_receive hm fun a e => hp ⟨a, e⟩).1
  | replay now =>
    obtain ⟨k, t, ht, rfl⟩ := mem_replay.1 hm
    have here := getElem?_replay_of_some ht now
    exact .inr (.inr ⟨k, _, here, owner?_resend (h.fits ht) here rfl⟩)
  | retransmit now k maxRetries =>
    obtain ⟨-, he⟩ | ⟨t, ht, he | ⟨-, he⟩⟩ := s.retransmit_cases now k maxRetries
    all_goals
      rw [outputs, he] at hm
    · cases hm
    · cases hm
    · obtain rfl := List.mem_singleton.1 hm
      have here := getElem?_of_insert (congrArg Session.outgoing (congrArg Prod.fst he))
      exact .inr (.inr ⟨k, _, here, owner?_resend (h.fits ht) here rfl⟩)
  | _ => cases hm

structure Chronicle (past : List (Session × Operation)) (s : Session) : Prop where
  traced : Traced past s
  order_le : ∀ t ∈ allOpened past, t.order ≤ s.lastOrder
  holds : ∀ t ∈ allOpened past, t.HoldsPacket
  fresh : ∀ n, s.lastOrder < n → issued past n = []
  follows : ∀ t ∈ allOpened past, Follows past s t
  owned : ∀ x ∈ past, ∀ packet ∈ x.1.outputs x.2, packet.standsAlone = true ∨
    x.1.Unmatched x.2 packet ∨ ∃ t ∈ allOpened past, packet ∈ x.1.issuedBy x.2 t.order

namespace Chronicle

variable {past : List (Session × Operation)} {s : Session}

theorem step (h : Chronicle past s) (op : Operation) :
    Chronicle (past ++ [(s, op)]) (s.step op) := by
  have sound := h.traced.sound
  have turn := turn_of_step sound op
  have grown : s.lastOrder ≤ (s.step op).lastOrder := by
    obtain ⟨-, same⟩ | ⟨t, -, -, next⟩ := turn.lastOrder <;> omega
  refine ⟨h.traced.step op, fun t ht => ?_, fun t ht => ?_, fun n new => ?_, fun t ht => ?_,
    fun x hx packet hm => ?_⟩
  · rw [allOpened_concat, List.mem_append] at ht
    rcases ht with ht | ht
    · exact Nat.le_trans (h.order_le t ht) grown
    · obtain ⟨-, -, -, k, hk⟩ := turn.opened_cases ht
      exact (step_isSound sound op).order_le hk
  · rw [allOpened_concat, List.mem_append] at ht
    rcases ht with ht | ht
    · exact h.holds t ht
    · obtain ⟨-, -, -, k, hk⟩ := turn.opened_cases ht
      exact ((step_isSound sound op).fits hk).holdsPacket
  · rw [issued_append, issued_singleton, h.fresh n (Nat.lt_of_le_of_lt grown new), List.nil_append]
    obtain ⟨-, none⟩ | ⟨t, opened, order, -⟩ :=
      (emits_of_step sound op n).of_new sound (Nat.lt_of_le_of_lt grown new)
    · exact none
    · obtain ⟨-, -, -, k, hk⟩ := turn.opened_cases (by rw [opened]; exact List.mem_singleton_self t)
      have := (step_isSound sound op).order_le hk
      omega
  · rw [allOpened_concat, List.mem_append] at ht
    rcases ht with ht | ht
    · exact (h.follows t ht).step sound op (h.order_le t ht)
    · obtain ⟨-, order, -⟩ := turn.opened_cases ht
      exact .opened sound (h.fresh _ (by omega)) ht
  · rcases List.mem_append.1 hx with hx | hx
    · obtain alone | unmatched | ⟨t, ht, issues⟩ := h.owned x hx packet hm
      · exact .inl alone
      · exact .inr (.inl unmatched)
      · exact .inr (.inr ⟨t, by rw [allOpened_concat]; exact List.mem_append_left _ ht, issues⟩)
    · obtain rfl := List.mem_singleton.1 hx
      obtain alone | unmatched | ⟨k, u, hu, owner⟩ := owner?_cases sound hm
      · exact .inl alone
      · exact .inr (.inl unmatched)
      · obtain ⟨t, ht, order, -⟩ := (h.traced.step op).opened hu
        exact .inr (.inr ⟨t, ht, List.mem_filter.2 ⟨hm, by simp [owner, order]⟩⟩)

theorem run (h : Chronicle past s) (ops : List Operation) :
    Chronicle (past ++ s.history ops) (s.run ops) := by
  induction ops generalizing past s with
  | nil => simpa [history, Session.run] using h
  | cons op ops ih => simpa [history, Session.run] using ih (h.step op)

end Chronicle

theorem chronicle_of_run (maxInflight : UInt16) (ops : List Operation) :
    Chronicle ((new maxInflight).history ops) ((new maxInflight).run ops) := by
  have start : Chronicle [] (new maxInflight) :=
    ⟨traced_of_run maxInflight [], by simp [allOpened], by simp [allOpened], fun _ _ => rfl,
      by simp [allOpened], by simp⟩
  simpa using start.run ops

/-- A history, seen by what goes out for the transactions that it opens. -/
structure KeepsContent (past : List (Session × Operation)) : Prop where
  distinct : ((allOpened past).map (·.order)).Nodup
  /-- A message goes out as it was accepted, then marked as sent before and otherwise the same, and
  from the moment the broker takes it, if it is one to be taken, only its release goes out. -/
  message : ∀ t ∈ allOpened past, ∀ p, t.packet = .publish p →
    p.qos ≠ .atMostOnce ∧ p.dup = false ∧ ∃ before after again releases,
      past = before ++ after ∧
      issued before t.order = .publish p :: .replicate again (.publish { p with dup := true }) ∧
      issued after t.order =
        .replicate releases (.pubRel { packetId := p.packetId, reason := .success }) ∧
      ∀ x ∈ after.head?, p.qos = .exactlyOnce ∧ x.1.Confirms x.2 t.order
  subscription : ∀ t ∈ allOpened past, (∀ p, t.packet ≠ .publish p) →
    ∃ again, issued past t.order = .replicate (again + 1) t.packet
  owned : ∀ x ∈ past, ∀ packet ∈ x.1.outputs x.2, packet.standsAlone = true ∨
    x.1.Unmatched x.2 packet ∨ ∃ t ∈ allOpened past, packet ∈ x.1.issuedBy x.2 t.order

theorem keeps_content_of_run (maxInflight : UInt16) (ops : List Operation) :
    KeepsContent ((new maxInflight).history ops) := by
  have chronicle := chronicle_of_run maxInflight ops
  constructor
  case distinct => exact (opened_ascending (new_isSound maxInflight) ops).1.imp Nat.ne_of_lt
  case message =>
    intro t ht p hp
    have held := chronicle.holds t ht
    have first : p.qos ≠ .atMostOnce ∧ p.dup = false := by
      unfold Transaction.HoldsPacket at held
      split at held <;> simp_all
    obtain ⟨released, course, -⟩ := chronicle.follows t ht
    rw [hp] at course
    refine ⟨first.1, first.2, ?_⟩
    cases course with
    | @waiting m issued_eq =>
      exact ⟨_, [], m, 0, (List.append_nil _).symm, issued_eq, rfl, by simp⟩
    | @released q before after x m m' hq exactly split confirms first later =>
      cases hq
      refine ⟨before, x :: after, m, m', split, first, later, fun y hy => ?_⟩
      cases hy
      exact ⟨exactly, confirms⟩
  case subscription =>
    intro t ht other
    obtain ⟨released, course, -⟩ := chronicle.follows t ht
    cases course with
    | @waiting m issued_eq =>
      have same : t.packet.later false = t.packet := by
        cases hp : t.packet with
        | publish p => exact absurd hp (other p)
        | _ => rfl
      rw [same] at issued_eq
      exact ⟨m, issued_eq⟩
    | released hp => exact absurd hp (other _)
  case owned => exact chronicle.owned

end Session

end MqttClient
