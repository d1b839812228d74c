import MqttClient.Proofs.Engine.Lifetime
import MqttClient.Proofs.Session.Inbound

/-! Exactly-once messages of the broker that a lost connection leaves half received. The session
remembers their identifiers until the broker releases them, whatever connection that happens on and
whether or not the broker still has the session, and hands on no message under one of them. -/

namespace MqttClient

def Effect.delivery? : Effect → Option (HandlerId × Message)
  | .deliver handler m => some (handler, m)
  | _ => none

namespace Engine

def delivered (e : Engine) : List (HandlerId × Message) := e.effects.filterMap Effect.delivery?

/-- Whether the message of an identifier is half received after a command, on the connection of that
epoch. -/
def hearing (epoch : Nat) (k : UInt16) (half : Bool) : Command → Bool
  | .incoming n (.publish q) => half || decide (n = epoch ∧ q.qos = .exactlyOnce ∧ q.packetId = k)
  | .incoming n (.pubRel a) => half && !decide (n = epoch ∧ a.packetId = k)
  | _ => half

variable {past past₀ : List Command} {e e₀ : Engine} {c : Command} {config : Config} {p : ConnAck}

theorem contains_receivedAfter (connected : e.session.connection = .connected) (c : Command)
    (k : UInt16) :
    (e.receivedAfter c).contains k = hearing e.epoch k (e.session.received.contains k) c := by
  cases c with
  | incoming n packet =>
    by_cases current : n = e.epoch
    · subst current
      rw [receivedAfter, if_pos rfl]
      cases packet with
      | publish q => simp [hearing, Session.received_receive_publish, connected]
      | pubRel a => simp [hearing, Session.received_receive_pubRel]
      | _ => rw [Session.received_receive_of_other _ _ (by simp) (by simp)]; rfl
    · rw [receivedAfter, if_neg current]
      cases packet <;> simp [hearing, current]
  | _ => rfl

theorem Lasts.contains_received (h : Lasts past₀ e₀ config p past e) (k : UInt16) :
    ∃ mid, past = past₀ ++ .incoming e₀.epoch (.connAck p) :: mid ∧
      e.session.received.contains k =
        mid.foldl (hearing e₀.epoch k) (e₀.session.received.contains k) := by
  let held : List Command → Engine → Prop := fun past e => e.epoch = e₀.epoch ∧
    ∃ mid, past = past₀ ++ .incoming e₀.epoch (.connAck p) :: mid ∧
      e.session.received.contains k =
        mid.foldl (hearing e₀.epoch k) (e₀.session.received.contains k)
  have kept : Kept (fun _ => True) held := {
    hears := by
      rintro past e c m - - connected ⟨epoch, mid, rfl, here⟩ heard
      refine ⟨heard.epoch_eq.trans epoch, mid ++ [c], by simp, ?_⟩
      rw [heard.received_eq, contains_receivedAfter connected, here, epoch, List.foldl_append]
      rfl
    does := by
      rintro past c m d out - - ⟨epoch, mid, rfl, here⟩ did
      exact ⟨did.epoch_eq.trans epoch, mid, rfl, did.received_eq ▸ here⟩
    links := fun _ here _ => here
    drift := by
      rintro past e d ⟨epoch, mid, rfl, here⟩ drifts
      refine ⟨drifts.epoch_eq.trans epoch, mid, rfl, ?_⟩
      cases drifts <;> exact here }
  have here : held past e ∧ _ := h.on_connection (motive := held)
    (fun accepted => ⟨accepted.epoch_eq, [], rfl, accepted.received_eq ▸ rfl⟩) kept
  exact here.1.2

theorem foldl_hearing_eq_true_iff {epoch : Nat} {k : UInt16} {half : Bool} (mid : List Command)
    (first : ∀ q, .incoming epoch (.publish q) ∈ mid → q.qos = .exactlyOnce → q.packetId ≠ k) :
    mid.foldl (hearing epoch k) half = true ↔
      half = true ∧ ∀ a, .incoming epoch (.pubRel a) ∈ mid → a.packetId ≠ k := by
  induction mid generalizing half with
  | nil => simp
  | cons c rest ih =>
    have later := fun q hm => first q (List.mem_cons_of_mem c hm)
    rw [List.foldl_cons, ih later]
    cases c with
    | incoming n packet =>
      cases packet with
      | publish q =>
        have other : ¬ (n = epoch ∧ q.qos = .exactlyOnce ∧ q.packetId = k) := by
          rintro ⟨rfl, hq, hk⟩
          exact first q List.mem_cons_self hq hk
        simp [hearing, other]
      | pubRel a =>
        by_cases released : n = epoch ∧ a.packetId = k
        · obtain ⟨rfl, rfl⟩ := released
          simp [hearing]
        · simp only [hearing, released, decide_false, Bool.not_false, Bool.and_true, List.mem_cons]
          refine and_congr_right fun _ => ⟨fun none b hb => ?_, fun none b hb => none b (.inr hb)⟩
          rcases hb with hb | hb
          · cases hb
            exact fun hk => released ⟨rfl, hk⟩
          · exact none b hb
      | _ => simp [hearing]
    | _ => simp [hearing]

theorem delivered_connectionLost (e : Engine) (cause : ConnectionError) :
    (e.connectionLost cause).delivered = e.delivered := by
  obtain ⟨out, he, lost⟩ := e.effects_connectionLost cause
  have none : out.filterMap Effect.delivery? = [] := by
    refine List.filterMap_eq_nil_iff.2 fun x hx => ?_
    cases x with
    | deliver => exact absurd (lost _ hx) id
    | _ => rfl
  simp only [delivered, he, List.filterMap_append, none, List.append_nil]

theorem delivered_writeOrLose (e : Engine) (packet : Packet) :
    (e.writeOrLose packet).delivered = e.delivered := by
  unfold writeOrLose
  obtain ⟨link, bytes, -, -, -, he⟩ | ⟨link, err, -, -, he⟩ | ⟨-, err, -, he⟩ :=
    e.write_cases packet
  all_goals rw [he]
  · simp [delivered, Effect.delivery?]
  · exact delivered_connectionLost e _
  · exact delivered_connectionLost e _

theorem delivered_replied (e : Engine) (reply : Option Packet) :
    (e.replied reply).delivered = e.delivered := by
  cases reply with
  | none => rfl
  | some packet =>
    rw [replied]
    split
    · rfl
    · exact delivered_writeOrLose e packet

theorem delivered_publish (quiet : e.session.events = [])
    (connected : e.session.connection = .connected) {q : Publish} (hq : q.qos = .exactlyOnce) :
    (e.handle (.incoming e.epoch (.publish q))).delivered = e.delivered ++
      if e.session.received.contains q.packetId then []
      else (e.subscriptions.handlersOf q.topic).map fun h => (h, .ofPublish q) := by
  have taking : e.session.connection ≠ .connecting := by simp [connected]
  obtain ⟨r, he, -, events, -⟩ := Session.receive_publish_exactlyOnce taking e.now hq
  rw [handle, if_pos rfl, incoming, he]
  change (Engine.replied ((e.withSession r).handleEvents)
    (some (.pubRec { packetId := q.packetId, reason := .success }))).delivered = _
  rw [delivered_replied, handleEvents]
  simp only [Session.takeEvents, withSession, events, quiet, List.nil_append]
  split
  · exact (List.append_nil _).symm
  · simp [handleEvent, dispatch_eq, delivered, List.filterMap_map, Function.comp_def,
      Effect.delivery?]

/-- An identifier that earlier connections left half received, and that was not released since. -/
def LeftHalf (e₀ : Engine) (mid : List Command) (k : UInt16) : Prop :=
  e₀.session.received.contains k = true ∧
    ∀ a, .incoming e₀.epoch (.pubRel a) ∈ mid → a.packetId ≠ k

/-- The first exactly-once message of an identifier on a connection is handed to every handler with
a matching filter, unless earlier connections left that identifier half received. Whether the broker
still had the session does not matter. -/
theorem delivered_of_lasts {past₀ mid : List Command} {e₀ e : Engine} {config : Config}
    {p : ConnAck}
    (h : Lasts past₀ e₀ config p (past₀ ++ .incoming e₀.epoch (.connAck p) :: mid) e)
    {q : Publish} (hq : q.qos = .exactlyOnce)
    (first : ∀ q', .incoming e₀.epoch (.publish q') ∈ mid → q'.qos = .exactlyOnce →
      q'.packetId ≠ q.packetId) :
    ∃ messages, (e.handle (.incoming e.epoch (.publish q))).delivered = e.delivered ++ messages ∧
      (LeftHalf e₀ mid q.packetId → messages = []) ∧
      (¬ LeftHalf e₀ mid q.packetId →
        messages = (e.subscriptions.handlersOf q.topic).map fun h => (h, .ofPublish q)) := by
  obtain ⟨mid', same, received⟩ := h.contains_received q.packetId
  cases List.append_cancel_left same
  have left : e.session.received.contains q.packetId = true ↔ LeftHalf e₀ mid q.packetId := by
    rw [received]
    exact foldl_hearing_eq_true_iff mid first
  have connected := h.connected
  have quiet := h.run.accounted.settled.ledger.events_eq
  refine ⟨_, delivered_publish quiet connected hq, fun half => ?_, fun whole => ?_⟩
  · rw [if_pos (left.2 half)]
  · rw [if_neg (mt left.1 whole)]

def supervised : Config :=
  { clientId := "", host := "h", port := 1883, reconnect := some {}
    one_le_inflight := Config.one_le_hundred }

def anew : ConnAck := { sessionPresent := false, code := .success }

/-- A connection is lost before the broker releases a message that it delivered, and another is
about to be accepted. -/
def interrupted : List Command :=
  [.connect 0 supervised, .opened 1 (.ok none), .incoming 1 (.connAck anew),
    .call (.subscribe 1 { filters := [{ path := "a", qos := .exactlyOnce }] } 0),
    .incoming 1 (.publish { qos := .exactlyOnce, topic := "a", payload := [1], packetId := 7 }),
    .networkDown 1 .connectionClosed, .timer .reconnect 4, .opened 3 (.ok none)]

def reused : Publish := { qos := .exactlyOnce, topic := "a", payload := [2], packetId := 7 }

theorem lasts_interrupted :
    let e₀ := interrupted.foldl handle {}
    Lasts interrupted e₀ supervised anew (interrupted ++ [.incoming e₀.epoch (.connAck anew)])
      (e₀.handle (.incoming e₀.epoch (.connAck anew))) where
  reachable := reachable_of_isRun (by decide +kernel)
  connecting := by decide +kernel
  success := rfl
  possible := possible_of_isPossible (by decide +kernel)
  leads := .refl
  epoch_eq := by decide +kernel
  config_eq := by decide +kernel
  maxInflight_eq := by decide +kernel

theorem delivered_interrupted :
    let e₀ := interrupted.foldl handle {}
    let e := e₀.handle (.incoming e₀.epoch (.connAck anew))
    LeftHalf e₀ [] reused.packetId ∧
      ∃ messages, (e.handle (.incoming e.epoch (.publish reused))).delivered
          = e.delivered ++ messages ∧
        (LeftHalf e₀ [] reused.packetId → messages = []) ∧
        (¬ LeftHalf e₀ [] reused.packetId → messages =
          (e.subscriptions.handlersOf reused.topic).map fun h => (h, .ofPublish reused)) := by
  have half : (interrupted.foldl handle {}).session.received.contains 7 = true := by decide +kernel
  have first : ∀ q : Publish,
      .incoming (interrupted.foldl handle {}).epoch (.publish q) ∈ ([] : List Command) →
        q.qos = .exactlyOnce → q.packetId ≠ reused.packetId := by simp
  exact ⟨⟨half, by simp⟩, delivered_of_lasts lasts_interrupted rfl first⟩

/-- The broker starts over, and its first message is taken for one that the lost connection
delivered. -/
theorem not_delivered_anew :
    ¬ ∀ past₀ mid e₀ e config p q,
      Lasts past₀ e₀ config p (past₀ ++ .incoming e₀.epoch (.connAck p) :: mid) e →
      e₀.connectCall = none → p.sessionPresent = false → q.qos = .exactlyOnce →
      (∀ q', .incoming e₀.epoch (.publish q') ∈ mid → q'.qos = .exactlyOnce →
        q'.packetId ≠ q.packetId) →
      ∀ h ∈ e.subscriptions.handlersOf q.topic, (h, Message.ofPublish q) ∈
        (e.handle (.incoming e.epoch (.publish q))).delivered.drop e.delivered.length := by
  intro always
  let e₀ := interrupted.foldl handle {}
  let e := e₀.handle (.incoming e₀.epoch (.connAck anew))
  have uncalled : e₀.connectCall = none := by decide +kernel
  have subscribed : 0 ∈ e.subscriptions.handlersOf reused.topic := by decide +kernel
  have swallowed : (e.handle (.incoming e.epoch (.publish reused))).delivered.drop
      e.delivered.length = [] := by decide +kernel
  have handed := always interrupted [] e₀ e supervised anew reused lasts_interrupted uncalled rfl
    rfl (by simp) 0 subscribed
  rw [swallowed] at handed
  cases handed

end Engine

end MqttClient
