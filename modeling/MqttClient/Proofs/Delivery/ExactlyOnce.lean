import MqttClient.Proofs.Delivery.Arrival

/-! Between two sessions, an exactly-once message is handed on at most once, and exactly once as
soon as the sender reports it as published: whatever is repeated, however often the connection is
reset, and also when packet identifiers are used again. -/

namespace MqttClient.Delivery

theorem coherent_step {x : Exchange} (h : Coherent x) (m : Move) : Coherent (x.step m) := by
  cases m with
  | publish now p => exact h.publish now p
  | retransmit now k maxRetries => exact h.retransmit now k maxRetries
  | forward now => exact h.forward now
  | answer now => exact h.answer now
  | reset now toSender toReceiver => exact h.reset now toSender toReceiver

theorem coherent_run {x : Exchange} (h : Coherent x) (moves : List Move) :
    Coherent (x.run moves) := by
  induction moves generalizing x with
  | nil => exact h
  | cons m rest ih => exact ih (coherent_step h m)

def message? : Event → Option Publish
  | .message p => some p
  | _ => none

def isCompletion : Event → Bool
  | .published _ (.pubComp _) => true
  | _ => false

structure Recorded (x : Exchange) : Prop where
  receiver_sound : x.receiver.IsSound
  messages : x.receiver.events.filterMap message? = x.delivered.map (·.2)
  completions : x.sender.events.countP isCompletion = x.completed.length

theorem map_deliveredBy (parcel : Parcel) (events : List Event) :
    (events.filterMap (deliveredBy parcel)).map (·.2) = events.filterMap message? := by
  rw [List.map_filterMap]
  congr 1
  funext e
  cases e <;> rfl

theorem length_completedBy {s s' : Session} {now : Time} {events : List Event}
    (r : Session.Receipt now s s' events) :
    (events.filterMap (completedBy s)).length = events.countP isCompletion := by
  cases r with
  | @ended k t e ht he =>
    cases e with
    | published j ack =>
      obtain ⟨rfl, -⟩ := he
      cases ack <;> simp [completedBy, isCompletion, Session.transaction?, ht]
    | subscribed | unsubscribed => rfl
    | _ => exact absurd he id
  | _ => rfl

theorem recorded_start (m n : UInt16) (now : Time) (p q : ConnAck) :
    Recorded (Exchange.start m n now p q) := by
  have hs : (Exchange.start m n now p q).sender = _ := greet_eq rfl now p
  have hr : (Exchange.start m n now p q).receiver = _ := greet_eq rfl now q
  refine ⟨Session.isSound_of_empty fun k => ?_, ?_, ?_⟩
  · rw [hr]
    exact Std.TreeMap.getElem?_emptyc
  · rw [hr]
    rfl
  · rw [hs]
    rfl

theorem recorded_step {x : Exchange} (h : Coherent x) (hx : Recorded x) (m : Move) :
    Recorded (x.step m) := by
  cases m with
  | publish now p =>
    obtain e | ⟨k, q, -, -, -, -, -, e⟩ := publish_cases (x := x) now p
    all_goals rw [Exchange.step, e]
    · exact hx
    · exact ⟨hx.receiver_sound, hx.messages, hx.completions⟩
  | retransmit now k maxRetries =>
    rw [Exchange.step, Exchange.retransmit]
    obtain ⟨-, e⟩ | ⟨t, -, e | ⟨-, e⟩⟩ := x.sender.retransmit_cases now k maxRetries
    all_goals rw [e]
    · exact hx
    · exact hx
    · exact ⟨hx.receiver_sound, hx.messages, hx.completions⟩
  | forward now =>
    rw [Exchange.step, Exchange.forward]
    split
    · exact hx
    · next parcel rest _ =>
      have sound := Session.receive_isSound hx.receiver_sound now parcel.packet
      obtain ⟨err, e⟩ | ⟨r, events, reply, -, e⟩ :=
        Session.receive_cases hx.receiver_sound now parcel.packet
      all_goals rw [e] at sound ⊢
      · exact ⟨sound, by simpa [newEvents] using hx.messages, hx.completions⟩
      · refine ⟨sound, ?_, hx.completions⟩
        dsimp only
        rw [newEvents_append (show _ = x.receiver.events ++ events from rfl), List.map_append,
          map_deliveredBy, ← hx.messages, List.filterMap_append]
  | answer now =>
    rw [Exchange.step, Exchange.answer]
    split
    · exact hx
    · next packet rest _ =>
      obtain ⟨err, e⟩ | ⟨s, events, reply, receipt, e⟩ := Session.receive_cases h.sound now packet
      all_goals rw [e]
      · exact ⟨hx.receiver_sound, hx.messages, by simpa [newEvents] using hx.completions⟩
      · refine ⟨hx.receiver_sound, hx.messages, ?_⟩
        have new : (events.filterMap (completedBy x.sender)).length = events.countP isCompletion :=
          length_completedBy (s := { x.sender with lastIncoming := now }) receipt
        dsimp only
        rw [newEvents_append (show _ = x.sender.events ++ events from rfl), List.length_append, new,
          ← hx.completions, List.countP_append]
  | reset now toSender toReceiver =>
    have hs : greet x.sender.disconnected now toSender = _ := greet_eq rfl now toSender
    have hr : greet x.receiver.disconnected now toReceiver = _ := greet_eq rfl now toReceiver
    rw [Exchange.step, Exchange.reset, hr]
    refine ⟨hx.receiver_sound.congr rfl rfl, ?_, ?_⟩
    · simpa [message?, Session.disconnected, List.filterMap_cons] using hx.messages
    · simp only [Session.replay]
      rw [hs]
      simpa [isCompletion, Session.disconnected] using hx.completions

theorem recorded_run {x : Exchange} (h : Coherent x) (hx : Recorded x) (moves : List Move) :
    Recorded (x.run moves) := by
  induction moves generalizing x with
  | nil => exact hx
  | cons m rest ih => exact ih (coherent_step h m) (recorded_step h hx m)

theorem Coherent.copies_le_one {x : Exchange} (h : Coherent x) {a : Nat × Publish}
    (ha : a ∈ x.accepted) (hq : a.2.qos = .exactlyOnce) : x.copies a.1 ≤ 1 := by
  obtain ⟨k, t, ht, eo⟩ | hc := h.ended a ha hq
  · have accepted : (t.order, a.2) ∈ x.accepted := eo ▸ ha
    have kind : t.isPublish .exactlyOnce = true :=
      Transaction.isPublish_iff.2 ⟨_, h.eq_of_accepted ht accepted, hq⟩
    have ne : (x.lane k).stage ≠ .closed := by
      simp only [Exchange.lane, ht, stageOf, kind, if_true]
      split <;> simp
    have := (h.lanes k).copies_le_one ne
    simpa [Exchange.lane, ht, kind, eo] using this
  · exact Nat.le_of_eq hc

theorem Coherent.copies_eq_one {x : Exchange} (h : Coherent x) {a : Nat × Publish}
    (ha : a ∈ x.accepted) (hq : a.2.qos = .exactlyOnce) (hc : a.1 ∈ x.completed) :
    x.copies a.1 = 1 := by
  obtain ⟨k, t, ht, eo⟩ | once := h.ended a ha hq
  · exact absurd eo ((h.completed _ hc).2 k t ht)
  · exact once

/-- Whatever two sessions do, the receiver hands on each exactly-once message that the sender
accepted at most once, and exactly once if the sender reported its completion. The messages counted
are those that the receiver handed on, each under the publish whose content it has, and no
completion is left out. -/
theorem exactly_once_of_run (maxInflight maxInflight' : UInt16) (now : Time)
    (toSender toReceiver : ConnAck) (moves : List Move) :
    let x := (Exchange.start maxInflight maxInflight' now toSender toReceiver).run moves
    (∀ a ∈ x.accepted, a.2.qos = .exactlyOnce →
        x.copies a.1 ≤ 1 ∧ (a.1 ∈ x.completed → x.copies a.1 = 1)) ∧
      (∀ a ∈ x.accepted, ∀ b ∈ x.accepted, a.1 = b.1 → a = b) ∧
      (∀ d ∈ x.delivered, ∃ n, d.1 = some n ∧ (n, { d.2 with dup := false }) ∈ x.accepted) ∧
      x.receiver.events.filterMap message? = x.delivered.map (·.2) ∧
      x.sender.events.countP isCompletion = x.completed.length := by
  intro x
  have start := coherent_start maxInflight maxInflight' now toSender toReceiver
  have h : Coherent x := coherent_run start moves
  have recorded : Recorded x := recorded_run start (recorded_start _ _ now _ _) moves
  exact ⟨fun a ha hq => ⟨h.copies_le_one ha hq, h.copies_eq_one ha hq⟩, h.accepted_inj,
    h.delivered, recorded.messages, recorded.completions⟩

/-- A message that is sent twice before its exchange is broken off by a reset. -/
theorem exactly_once_after_reset :
    let greeting : ConnAck := { sessionPresent := false, code := .success }
    let message : Publish := { qos := .exactlyOnce, topic := "a", payload := [] }
    let accepted : Publish := { message with packetId := 1 }
    let x := (Exchange.start 10 10 0 greeting greeting).run
      [.publish 1 message, .retransmit 2 1 3, .forward 3, .forward 4, .answer 5,
        .reset 6 greeting greeting, .forward 7, .answer 8]
    (1, accepted) ∈ x.accepted ∧ 1 ∈ x.completed ∧ x.copies 1 = 1 := by
  intro greeting message accepted x
  have ha : (1, accepted) ∈ x.accepted := by decide +kernel
  have hc : 1 ∈ x.completed := by decide +kernel
  have run := exactly_once_of_run 10 10 0 greeting greeting
    [.publish 1 message, .retransmit 2 1 3, .forward 3, .forward 4, .answer 5,
      .reset 6 greeting greeting, .forward 7, .answer 8]
  exact ⟨ha, hc, (run.1 (1, accepted) ha rfl).2 hc⟩

end MqttClient.Delivery
