import MqttClient.Proofs.Session.Steps

/-! Every history of a session, from its beginning through any operations in any order. Through all
of them an identifier belongs to one open transaction at a time: a transaction is opened under an
identifier that is free, and stays what it was opened as until it ends. -/

namespace MqttClient

/-- The request asks for an acknowledgement, so that a transaction is opened for it. -/
def Request.Opens : Request → Prop
  | .publish p => p.qos ≠ .atMostOnce
  | .subscribe _ | .unsubscribe _ => True
  | _ => False

structure Transaction.Continues (t u : Transaction) : Prop where
  packetId_eq : u.packetId = t.packetId
  packet_eq : u.packet = t.packet
  order_eq : u.order = t.order
  phase : u.phase = t.phase ∨ u.phase = .released

theorem Transaction.Continues.refl (t : Transaction) : t.Continues t := ⟨rfl, rfl, rfl, .inl rfl⟩

namespace Session

inductive Operation
  | send (now : Time) (r : Request)
  | receive (now : Time) (p : Packet)
  | replay (now : Time)
  | retransmit (now : Time) (packetId maxRetries : UInt16)
  | forget (packetId : UInt16)
  | clean
  | connecting
  | disconnecting
  | disconnected
  | takeEvents

def new (maxInflight : UInt16) : Session := { maxInflight }

def step (s : Session) : Operation → Session
  | .send now r => (s.send now r).1
  | .receive now p => (s.receive now p).1
  | .replay now => (s.replay now).1
  | .retransmit now packetId maxRetries => (s.retransmit now packetId maxRetries).1
  | .forget packetId => s.forget packetId
  | .clean => s.clean
  | .connecting => s.connecting.1
  | .disconnecting => s.disconnecting
  | .disconnected => s.disconnected
  | .takeEvents => s.takeEvents.2

def run (s : Session) (ops : List Operation) : Session := ops.foldl step s

theorem new_isSound (maxInflight : UInt16) : (new maxInflight).IsSound :=
  isSound_of_empty fun _ => Std.TreeMap.getElem?_emptyc

theorem step_isSound {s : Session} (h : s.IsSound) (op : Operation) : (s.step op).IsSound := by
  cases op with
  | send now r => exact send_isSound h now r
  | receive now p => exact receive_isSound h now p
  | replay now => exact replay_isSound h now
  | retransmit now k maxRetries => exact retransmit_isSound h now k maxRetries
  | forget k => exact h.forget k
  | clean => exact isSound_of_empty fun _ => Std.TreeMap.getElem?_emptyc
  | connecting =>
    simp only [step, connecting]
    split
    · exact h.congr rfl rfl
    · exact h
  | disconnecting | disconnected | takeEvents => exact h.congr rfl rfl

theorem run_isSound {s : Session} (h : s.IsSound) (ops : List Operation) : (s.run ops).IsSound := by
  induction ops generalizing s with
  | nil => exact h
  | cons op ops ih => exact ih (step_isSound h op)

theorem send_eq_start {r : Request} (hr : r.Opens) (s : Session) (now : Time) :
    ∃ phase mk, phase ≠ .released ∧ (∀ k, Engine.packetIdOf (mk k) = k) ∧
      s.send now r = s.start now phase mk := by
  cases r with
  | publish p =>
    refine ⟨.sent, fun packetId => .publish { p with packetId, dup := false }, by decide,
      fun _ => rfl, ?_⟩
    rw [send, sendPublish, if_neg hr]
  | subscribe p => exact ⟨.subscribing, _, by decide, fun _ => rfl, rfl⟩
  | unsubscribe p => exact ⟨.unsubscribing, _, by decide, fun _ => rfl, rfl⟩
  | connect | pingReq | disconnect => exact hr.elim

theorem send_of_opens {s s' : Session} {now : Time} {r : Request} {packet : Packet} (hr : r.Opens)
    (h : s.send now r = (s', .ok packet)) :
    ∃ k phase, s.outgoing[k]? = none ∧ k ≠ 0 ∧ Engine.packetIdOf packet = k ∧
      s' = s.track now k packet phase := by
  obtain ⟨phase, mk, -, carries, sent⟩ := s.send_eq_start hr now
  obtain ⟨k, -, free, ne, rfl, rfl⟩ := start_eq_ok (sent.symm.trans h)
  exact ⟨k, phase, free, ne, carries k, rfl⟩

theorem send_eq_error {s s' : Session} {now : Time} {r : Request} {e : SessionError}
    (h : s.send now r = (s', .error e)) : s' = s := by
  cases r with
  | connect p =>
    rw [send] at h
    split at h <;> cases h
    rfl
  | publish p =>
    rw [send, sendPublish] at h
    split at h
    · split at h <;> cases h
      rfl
    · exact (start_eq_error h).1
  | subscribe p => exact (start_eq_error h).1
  | unsubscribe p => exact (start_eq_error h).1
  | pingReq =>
    rw [send, sendPing] at h
    split at h
    · split at h <;> cases h
      rfl
    · cases h
      rfl
  | disconnect p => cases h

theorem send_of_not_opens {r : Request} (hr : ¬ r.Opens) (s : Session) (now : Time) :
    ∃ connection awaitPingResp, (s.send now r).1 = { s with connection, awaitPingResp } := by
  cases r with
  | publish p =>
    have hq : p.qos = .atMostOnce := by simpa [Request.Opens] using hr
    refine ⟨s.connection, s.awaitPingResp, ?_⟩
    rw [send, sendPublish, if_pos hq]
    split <;> rfl
  | connect p =>
    refine ⟨s.connection, s.awaitPingResp, ?_⟩
    rw [send]
    split <;> rfl
  | pingReq =>
    rw [send, sendPing]
    split
    · split
      · exact ⟨s.connection, s.awaitPingResp, rfl⟩
      · exact ⟨s.connection, true, rfl⟩
    · exact ⟨s.connection, s.awaitPingResp, rfl⟩
  | disconnect p => exact ⟨.disconnecting, s.awaitPingResp, rfl⟩
  | subscribe | unsubscribe => exact absurd trivial hr

theorem send_outgoing_of_not_opens {s : Session} {r : Request} (hr : ¬ r.Opens) (now : Time) :
    (s.send now r).1.outgoing = s.outgoing := by
  obtain ⟨connection, awaitPingResp, same⟩ := s.send_of_not_opens hr now
  rw [same]

theorem getElem?_track (s : Session) (now : Time) (k : UInt16) (packet : Packet) (phase : Phase)
    (j : UInt16) :
    (s.track now k packet phase).outgoing[j]? =
      if j = k then
        some { packetId := k, packet, phase, lastSent := now, order := s.lastOrder + 1 }
      else s.outgoing[j]? := by
  simp only [track, Std.TreeMap.getElem?_insert, Std.LawfulEqCmp.compare_eq_iff_eq, @eq_comm _ k j]

theorem send_publish_atMostOnce {s s' : Session} {now : Time} {p : Publish} {packet : Packet}
    (hq : p.qos = .atMostOnce) (h : s.send now (.publish p) = (s', .ok packet)) :
    packet = .publish { p with packetId := 0 } ∧ s' = s := by
  rw [send, sendPublish, if_pos hq] at h
  split at h <;> cases h
  exact ⟨rfl, rfl⟩

theorem packetIdOf_of_not_opens {s s' : Session} {now : Time} {r : Request} {packet : Packet}
    (hr : ¬ r.Opens) (h : s.send now r = (s', .ok packet)) : Engine.packetIdOf packet = 0 := by
  cases r with
  | connect p =>
    rw [send] at h
    split at h <;> cases h
    rfl
  | publish p =>
    have hq : p.qos = .atMostOnce := by simpa [Request.Opens] using hr
    obtain ⟨rfl, -⟩ := send_publish_atMostOnce hq h
    rfl
  | pingReq =>
    rw [send, sendPing] at h
    split at h
    · split at h <;> cases h
      rfl
    · cases h
  | disconnect p =>
    cases h
    rfl
  | subscribe | unsubscribe => exact absurd trivial hr

/-- Before and after an operation. A transaction takes a place only if it is free, with a number
above every number so far. -/
inductive Successor (lastOrder : Nat) : Option Transaction → Option Transaction → Prop
  | free : Successor lastOrder none none
  | opened (t : Transaction) (h : t.order = lastOrder + 1) : Successor lastOrder none (some t)
  | goesOn {t u : Transaction} (h : t.Continues u) : Successor lastOrder (some t) (some u)
  | ended (t : Transaction) : Successor lastOrder (some t) none

namespace Successor

variable {n : Nat} {s : Session}

theorem refl (place : Option Transaction) : Successor n place place := by
  cases place with
  | none => exact .free
  | some t => exact .goesOn (.refl t)

theorem dropped (place : Option Transaction) : Successor n place none := by
  cases place with
  | none => exact .free
  | some t => exact .ended t

theorem forget (k j : UInt16) : Successor n s.outgoing[j]? (s.forget k).outgoing[j]? := by
  rw [Session.forget, Std.TreeMap.getElem?_erase]
  split
  · exact dropped _
  · exact refl _

theorem insert {k : UInt16} {t u : Transaction} (ht : s.outgoing[k]? = some t)
    (hu : t.Continues u) (j : UInt16) :
    Successor n s.outgoing[j]? (s.outgoing.insert k u)[j]? := by
  rw [Std.TreeMap.getElem?_insert]
  split
  · next e =>
    rw [Std.LawfulEqCmp.compare_eq_iff_eq] at e
    rw [← e, ht]
    exact .goesOn hu
  · exact refl _

theorem receipt {now : Time} {s' : Session} {events : List Event} (r : Receipt now s s' events)
    (j : UInt16) : Successor n s.outgoing[j]? s'.outgoing[j]? := by
  cases r with
  | noted | message | accepted | rejected | pong | closed => exact refl _
  | release ht hq =>
    refine insert ht ?_ j
    exact ⟨rfl, rfl, rfl, .inr rfl⟩
  | ended => exact forget _ j

end Successor

theorem send_successor (s : Session) (now : Time) (r : Request) (j : UInt16) :
    Successor s.lastOrder s.outgoing[j]? (s.send now r).1.outgoing[j]? := by
  by_cases hr : r.Opens
  · rcases hs : s.send now r with ⟨s', e | packet⟩
    · rw [send_eq_error hs]
      exact .refl _
    · obtain ⟨k, phase, free, -, -, rfl⟩ := send_of_opens hr hs
      rw [getElem?_track]
      split
      · next e =>
        rw [e, free]
        exact .opened _ rfl
      · exact .refl _
  · rw [send_outgoing_of_not_opens hr]
    exact .refl _

theorem receive_successor {s : Session} (h : s.IsSound) (now : Time) (p : Packet) (j : UInt16) :
    Successor s.lastOrder s.outgoing[j]? (s.receive now p).1.outgoing[j]? := by
  obtain ⟨e, he⟩ | ⟨s', events, reply, hr, he⟩ := receive_cases h now p
  · rw [he]
    exact .refl _
  · rw [he]
    exact .receipt hr j

theorem replay_successor (s : Session) (now : Time) (j : UInt16) :
    Successor s.lastOrder s.outgoing[j]? (s.replay now).1.outgoing[j]? := by
  rw [getElem?_replay]
  cases s.outgoing[j]? with
  | none => exact .free
  | some t => exact .goesOn ⟨rfl, rfl, rfl, .inl rfl⟩

theorem retransmit_successor (s : Session) (now : Time) (k maxRetries j : UInt16) :
    Successor s.lastOrder s.outgoing[j]? (s.retransmit now k maxRetries).1.outgoing[j]? := by
  obtain ⟨-, e⟩ | ⟨t, ht, e | ⟨-, e⟩⟩ := retransmit_cases s now k maxRetries
  all_goals rw [e]
  · exact .refl _
  · exact .forget k j
  · refine .insert ht ?_ j
    exact ⟨rfl, rfl, rfl, .inl rfl⟩

theorem step_successor {s : Session} (h : s.IsSound) (op : Operation) (j : UInt16) :
    Successor s.lastOrder s.outgoing[j]? (s.step op).outgoing[j]? := by
  cases op with
  | send now r => exact send_successor s now r j
  | receive now p => exact receive_successor h now p j
  | replay now => exact replay_successor s now j
  | retransmit now k maxRetries => exact retransmit_successor s now k maxRetries j
  | forget k => exact .forget k j
  | clean =>
    have none : s.clean.outgoing[j]? = none := Std.TreeMap.getElem?_emptyc
    rw [step, none]
    exact .dropped _
  | connecting =>
    simp only [step, connecting]
    split <;> exact .refl _
  | disconnecting | disconnected | takeEvents => exact .refl _

/-- After any operations each open transaction is kept under the identifier that it carries and
holds what its phase asks for, and the numbers tell the transactions apart. A request that is
accepted next gets an identifier that is free, and touches no other transaction; nor does any
operation put one transaction in the place of another. -/
theorem identifiers_of_run (maxInflight : UInt16) (ops : List Operation) :
    let s := (new maxInflight).run ops
    (∀ (k : UInt16) (t : Transaction), s.outgoing[k]? = some t →
      t.packetId = k ∧ k ≠ 0 ∧ t.HoldsPacket ∧ t.order ≤ s.lastOrder) ∧
    (∀ (j k : UInt16) (t u : Transaction), s.outgoing[j]? = some t → s.outgoing[k]? = some u →
      t.order = u.order → j = k) ∧
    (∀ now r s' packet, r.Opens → s.send now r = (s', .ok packet) →
      ∃ k t, s.outgoing[k]? = none ∧ k ≠ 0 ∧ Engine.packetIdOf packet = k ∧ t.packet = packet ∧
        ∀ j : UInt16, s'.outgoing[j]? = if j = k then some t else s.outgoing[j]?) ∧
    (∀ now p s' packet, p.qos = .atMostOnce → s.send now (.publish p) = (s', .ok packet) →
      packet = .publish { p with packetId := 0 } ∧ s' = s) ∧
    ∀ op (k : UInt16) (t u : Transaction), s.outgoing[k]? = some t →
      (s.step op).outgoing[k]? = some u → t.Continues u := by
  intro s
  have h : s.IsSound := run_isSound (new_isSound maxInflight) ops
  refine ⟨fun k t ht => ?_, fun j k t u => h.order_inj, ?_, ?_, ?_⟩
  · have fits := h.fits ht
    exact ⟨fits.packetId_eq, fits.ne_zero, fits.holdsPacket, h.order_le ht⟩
  · intro now r s' packet hr hs
    obtain ⟨k, phase, free, ne, carries, rfl⟩ := send_of_opens hr hs
    exact ⟨k, _, free, ne, carries, rfl, getElem?_track s now k packet phase⟩
  · intro now p s' packet hq hs
    exact send_publish_atMostOnce hq hs
  · intro op k t u ht hu
    have successor := step_successor h op k
    rw [ht, hu] at successor
    cases successor with
    | goesOn continues => exact continues

end Session

end MqttClient
