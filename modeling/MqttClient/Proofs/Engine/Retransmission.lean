import MqttClient.Proofs.Engine.AckTimers
import MqttClient.Proofs.Engine.Resubscription
import MqttClient.Proofs.Engine.Slots

/-! A message of quality `atLeastOnce` that the broker does not acknowledge. It goes out again each
time the timer of its identifier fires, until the retries are used up. When the timer fires once
more, its call fails and nothing is left of it. In between the engine may do whatever else it likes:
what is held under the identifier of the message is no matter of other traffic. -/

namespace MqttClient

/-- When a message goes out for the `n`-th time after the first. The timeout runs from the last
time, on a clock that ticks in milliseconds. -/
def repeatAt (t : Time) (timeout : Duration) : Nat → Time
  | 0 => t
  | n + 1 => roundUp (repeatAt t timeout n + timeout.nanos)

theorem repeatAt_mono (t : Time) (timeout : Duration) {m n : Nat} (h : m ≤ n) :
    repeatAt t timeout m ≤ repeatAt t timeout n := by
  induction h with
  | refl => exact Nat.le_refl _
  | step _ ih => exact Nat.le_trans (Nat.le_trans ih (Nat.le_add_right _ _)) (le_roundUp _)

theorem roundUp_of_dvd {t : Nat} (h : 1000000 ∣ t) : roundUp t = t := by
  obtain ⟨ticks, rfl⟩ := h
  have whole : (1000000 * ticks + 999999) / 1000000 = ticks := by omega
  rw [roundUp, whole, Nat.mul_comm]

theorem repeatAt_of_dvd {t : Time} {timeout : Duration} (start : 1000000 ∣ t)
    (whole : 1000000 ∣ timeout.nanos) (n : Nat) : repeatAt t timeout n = t + n * timeout.nanos := by
  induction n with
  | zero => simp [repeatAt]
  | succ n ih =>
    have next : 1000000 ∣ t + n * timeout.nanos + timeout.nanos :=
      Nat.dvd_add (Nat.dvd_add start (Nat.dvd_mul_left_of_dvd whole n)) whole
    rw [repeatAt, ih, roundUp_of_dvd next, Nat.succ_mul, Nat.add_assoc]

theorem Timers.mem_toList_ack {ts : Timers} {k : UInt16} {a : Armed}
    (h : ts.get? (.ack k) = some a) : (Timer.ack k, a) ∈ ts.toList := by
  have armed : ts.acks[k]? = some a := h
  simp [toList, armed]

namespace Session

variable {s : Session} {k j : UInt16} {t : Transaction} {maxRetries : UInt16}

theorem retransmit_of_lt (ht : s.outgoing[k]? = some t) (retried : t.isRetried = true)
    (lt : t.retries < maxRetries.toNat) (now : Time) :
    s.retransmit now k maxRetries = ({ s with
      outgoing := s.outgoing.insert k { t with retries := t.retries + 1, lastSent := now } },
      .resend t.resend) := by
  simp only [retransmit, transaction?, ht, retried, Bool.true_and, decide_eq_true_eq, if_pos lt]
  rfl

theorem retransmit_of_le (ht : s.outgoing[k]? = some t) (le : maxRetries.toNat ≤ t.retries)
    (now : Time) : s.retransmit now k maxRetries = (s.forget k, .expired t) := by
  simp [retransmit, transaction?, ht, Nat.not_lt.2 le]

theorem complete_spares (ht : s.outgoing[k]? = some t) {fits : Transaction → Bool}
    (other : j = k → fits t = false) (event : Event) :
    (s.complete j fits event).outgoing[k]? = some t := by
  obtain ⟨-, he⟩ | ⟨u, hu, ends, he⟩ := s.complete_cases j fits event
  · rw [he, ht]
  · have ne : j ≠ k := by
      rintro rfl
      cases hu.symm.trans ht
      cases ends.symm.trans (other rfl)
    rw [he]
    simpa [push, forget, Std.TreeMap.getElem?_erase, ne] using ht

theorem receive_spares (ht : s.outgoing[k]? = some t) (phase : t.phase = .sent)
    (once : t.isPublish .exactlyOnce = false) {packet : Packet}
    (other : ∀ a, packet = .pubAck a → a.packetId ≠ k) (now : Time) :
    (s.receive now packet).1.outgoing[k]? = some t := by
  have arrived : ({ s with lastIncoming := now } : Session).outgoing[k]? = some t := ht
  cases packet with
  | connAck p =>
    simp only [receive, receiveConnAck]
    split
    · split <;> exact ht
    · exact ht
  | publish p =>
    simp only [receive, receivePublish]
    split
    · exact ht
    · split
      · exact ht
      · exact ht
      · split <;> exact ht
  | pubAck a => exact complete_spares arrived (fun same => absurd same (other a rfl)) _
  | pubRec a =>
    obtain ⟨-, he⟩ | ⟨u, hu, twice, rest⟩ :=
      receivePubRec_cases { s with lastIncoming := now } now a
    · simpa [receive, he] using ht
    · have ne : a.packetId ≠ k := by
        rintro rfl
        cases hu.symm.trans arrived
        cases once.symm.trans twice
      obtain ⟨-, he⟩ | ⟨-, he⟩ := rest
      · simpa [receive, he, Std.TreeMap.getElem?_insert, ne] using ht
      · simpa [receive, he, push, forget, Std.TreeMap.getElem?_erase, ne] using ht
  | pubRel a =>
    simp only [receive, receivePubRel]
    split <;> exact ht
  | pubComp a => exact complete_spares arrived (fun _ => by simp [phase]) _
  | subAck p => exact complete_spares arrived (fun _ => by simp [phase]) _
  | unsubAck p => exact complete_spares arrived (fun _ => by simp [phase]) _
  | _ => exact ht

end Session

namespace Engine

/-- The packets of a transaction that went out, with their times, the earliest first. -/
def shipments (k : UInt16) (log : Log) : List (Time × Packet) :=
  (log.filter (·.2.isOf k)).filterMap fun entry => entry.2.packet?.map (entry.1, ·)

/-- A message goes out at `t` and then `n` times again, marked as sent before and otherwise the
same. -/
def copiesOf (p : Publish) (t : Time) (timeout : Duration) (n : Nat) : List (Time × Packet) :=
  (t, .publish p) :: (List.range n).map fun i =>
    (repeatAt t timeout (i + 1), .publish { p with dup := true })

def Fires (e : Engine) (k : UInt16) (c : Command) : Prop :=
  ∃ id, c = .timer (.ack k) id ∧ (e.timers.get? (.ack k)).any (·.id == id) = true

/-- The command does not bring the acknowledgement of a message, its caller is still there, and the
connection lasts. If it is the timer, it is not yet `due` to end. -/
structure LeavesOpen (k : UInt16) (id : CallId) (due : Time) (e : Engine) (c : Command) : Prop where
  unacknowledged : ∀ a, c = .incoming e.epoch (.pubAck a) → a.packetId ≠ k
  uncancelled : c ≠ .cancel id
  heeded : e.abandoned.contains id = false
  lasts : (e.handle c).epoch = e.epoch
  early : e.Fires k c → e.now < due

/-- A run goes on under a clock that stops at every timer, and a message waits all the while. -/
inductive Unanswered (k : UInt16) (id : CallId) (due : Time) (past₀ : List Command) (e₀ : Engine)
    (log₀ : Log) : List Command → Engine → Log → Prop
  | refl : Unanswered k id due past₀ e₀ log₀ past₀ e₀ log₀
  | handle {past e log c} : Unanswered k id due past₀ e₀ log₀ past e log → Possible past e c →
    e.OnTime c → LeavesOpen k id due e c →
    Unanswered k id due past₀ e₀ log₀ (past ++ [c]) (e.handle c) (log ++ noted e (e.handle c))
  | clock {past e log} (now : Time) : Unanswered k id due past₀ e₀ log₀ past e log → e.now ≤ now →
    (∀ entry ∈ e.timers.toList, now ≤ entry.2.tick) →
    Unanswered k id due past₀ e₀ log₀ past { e with now } log
  | drift {past e d log} : Unanswered k id due past₀ e₀ log₀ past e log → Drifts e d →
    d.now = e.now → Unanswered k id due past₀ e₀ log₀ past d log

/-- A message waits for its acknowledgement, after `n` retries that all went out in time. -/
structure InFlight (config : Config) (id : CallId) (p : Publish) (t : Time) (n : Nat) (e : Engine)
    (log : Log) : Prop where
  config_eq : e.config = some config
  slot_eq : ∃ order timerId, e.slot p.packetId = {
    transaction := some { packetId := p.packetId, packet := .publish p, phase := .sent, retries := n
                          lastSent := repeatAt t config.ackTimeout n, order }
    pending := some (.publish id)
    timer := some { id := timerId
                    deadline := repeatAt t config.ackTimeout n + config.ackTimeout.nanos } }
  retries_le : n ≤ config.maxRetries.toNat
  shipped : shipments p.packetId log = copiesOf p t config.ackTimeout n
  le_now : repeatAt t config.ackTimeout n ≤ e.now
  now_le : e.now ≤ repeatAt t config.ackTimeout (n + 1)

def expired (e : Engine) (k : UInt16) (id : CallId) : Engine :=
  (e.withdrawn k).fail id (.publishTimeout k)

/-- The timer fired for the last time. The call fails, and what was held for it is gone; its
identifier is free, unless a call that was held back takes it at once. Nothing goes out for the call
any more, and the connection lives on if and only if it is to. -/
structure Expires (config : Config) (k : UInt16) (id : CallId) (past : List Command)
    (e d : Engine) : Prop where
  fails : ∃ out, d.effects = e.effects ++ .answer id (.error (.publishTimeout k)) :: out ∧
    (d.slot k = { transaction := none, pending := none, timer := none } ∨
      ∃ x ∈ out, Begins k e x (d.slot k))
  never : ∀ past' f, Leads past d past' f → f.Absent id ∧ ∃ out, f.requests = e.requests ++ out ∧
    ∀ packet, (some id, packet) ∉ out
  survives : d.session.connection = .connected ∧ d.epoch = e.epoch ↔ config.timeoutPolicy = .drop

/-- A message went out `n` times again, each time when it was due. It is next due when its timer
fires, and goes out once more then if there are retries left. -/
structure OnSchedule (config : Config) (id : CallId) (p : Publish) (t : Time) (n : Nat)
    (past : List Command) (e : Engine) (log : Log) : Prop where
  shipped : shipments p.packetId log = copiesOf p t config.ackTimeout n
  le_now : repeatAt t config.ackTimeout n ≤ e.now
  now_le : e.now ≤ repeatAt t config.ackTimeout (n + 1)
  next : ∃ a, e.timers.get? (.ack p.packetId) = some a ∧
    a.tick = repeatAt t config.ackTimeout (n + 1) ∧
    (e.now = a.tick → e.abandoned.contains id = false →
      (n < config.maxRetries.toNat → (∀ link, e.link = some link → link.room ≠ some 0) →
        (e.handle (.timer (.ack p.packetId) a.id)).epoch = e.epoch ∧
        shipments p.packetId (log ++ noted e (e.handle (.timer (.ack p.packetId) a.id))) =
          copiesOf p t config.ackTimeout (n + 1)) ∧
      (n = config.maxRetries.toNat → (∀ link, e.link = some link → link.room = none) →
        Expires config p.packetId id (past ++ [.timer (.ack p.packetId) a.id]) e
          (e.handle (.timer (.ack p.packetId) a.id))))

section

variable {config : Config} {id : CallId} {p : Publish} {t due : Time} {n : Nat} {k : UInt16}
  {past past₀ : List Command} {e e₀ d : Engine} {c : Command} {log log₀ : Log} {out : List Effect}

theorem shipments_append (k : UInt16) (log log' : Log) :
    shipments k (log ++ log') = shipments k log ++ shipments k log' := by
  simp [shipments]

theorem shipments_of_calm (calm : out.filter (Effect.isOf k) = []) (now : Time) :
    shipments k (out.map (now, ·)) = [] := by
  simp [shipments, List.filter_map, Function.comp_def, calm]

theorem shipments_noted (effects : d.effects = e.effects ++ out)
    (calm : out.filter (Effect.isOf k) = []) :
    shipments k (log ++ noted e d) = shipments k log := by
  rw [shipments_append, noted, effects, List.drop_left, shipments_of_calm calm, List.append_nil]

theorem shipments_write {packet : Packet} (part : packet.transaction? = some k) (now : Time)
    (call : Option CallId) (bytes : Bytes) :
    shipments k [(now, .write call packet bytes)] = [(now, packet)] := by
  simp [shipments, Effect.isOf, Effect.packet?, part]

theorem shipments_noted_write {call : Option CallId} {packet : Packet} {bytes : Bytes}
    (effects : d.effects = e.effects ++ [.write call packet bytes])
    (part : packet.transaction? = some k) :
    shipments k (log ++ noted e d) = shipments k log ++ [(e.now, packet)] := by
  rw [shipments_append, noted, effects, List.drop_left]
  exact congrArg _ (shipments_write part e.now call bytes)

theorem copiesOf_succ (p : Publish) (t : Time) (timeout : Duration) (n : Nat) :
    copiesOf p t timeout (n + 1) = copiesOf p t timeout n ++
      [(repeatAt t timeout (n + 1), .publish { p with dup := true })] := by
  simp [copiesOf, List.range_succ]

theorem Unanswered.reachable (h : Unanswered k id due past₀ e₀ log₀ past e log)
    (began : Reachable past₀ e₀) : Reachable past e := by
  induction h with
  | refl => exact began
  | handle _ possible _ _ ih => exact ih.handle possible
  | clock now _ _ _ ih => exact .clock now ih
  | drift _ drifts _ ih => exact ih.drift drifts

theorem Reachable.slot_of_free (h : Reachable past e) (free : e.session.outgoing[k]? = none) :
    e.slot k = { transaction := none, pending := none, timer := none } := by
  have settled := h.accounted.settled
  have pending := (settled.ledger.agrees k).eq_none_iff.2 free
  have timer : e.timers.get? (.ack k) = none := by
    have wanted := settled.timers (.ack k) not_false
    simpa [Wants, free] using wanted
  rw [slot, free, pending, timer]

theorem InFlight.held (h : InFlight config id p t n e log) :
    ∃ tr, e.session.outgoing[p.packetId]? = some tr ∧ tr.packet = .publish p ∧
      tr.phase = .sent := by
  obtain ⟨order, timerId, he⟩ := h.slot_eq
  exact ⟨_, congrArg Slot.transaction he, rfl, rfl⟩

theorem InFlight.pending_eq (h : InFlight config id p t n e log) :
    e.pending[p.packetId]? = some (.publish id) := by
  obtain ⟨order, timerId, he⟩ := h.slot_eq
  exact congrArg Slot.pending he

theorem InFlight.timer (h : InFlight config id p t n e log) :
    ∃ a, e.timers.get? (.ack p.packetId) = some a ∧
      a.tick = repeatAt t config.ackTimeout (n + 1) := by
  obtain ⟨order, timerId, he⟩ := h.slot_eq
  exact ⟨_, congrArg Slot.timer he, rfl⟩

theorem InFlight.connected (h : InFlight config id p t n e log) (run : Reachable past e) :
    e.session.connection = .connected := by
  obtain ⟨a, armed, -⟩ := h.timer
  exact ((run.accounted.settled.timers (.ack p.packetId) not_false).1 (armed ▸ rfl)).1

theorem InFlight.respects (h : InFlight config id p t n e log) (respects : Respects p.packetId e d)
    (same : d.epoch = e.epoch) : InFlight config id p t n d (log ++ noted e d) := by
  obtain ⟨tr, held, -⟩ := h.held
  obtain ⟨now, config, slot, out, effects, calm⟩ := respects.keeps same (by simp [held])
  exact ⟨config.trans h.config_eq, slot ▸ h.slot_eq, h.retries_le,
    (shipments_noted effects calm).trans h.shipped, now ▸ h.le_now, now ▸ h.now_le⟩

theorem InFlight.passes (h : InFlight config id p t n e log) (run : Reachable past e)
    (acked : p.qos = .atLeastOnce) (waits : LeavesOpen p.packetId id due e c)
    (other : ¬ e.Fires p.packetId c) : e.Passes p.packetId c := by
  obtain ⟨tr, held, message, phase⟩ := h.held
  have once : tr.isPublish .exactlyOnce = false := by simp [Transaction.isPublish, message, acked]
  cases c with
  | incoming epoch packet =>
    rintro rfl
    refine ⟨h.connected run, ?_, ?_⟩
    · rw [held]
      exact Session.receive_spares held phase once
        (fun a ha => waits.unacknowledged a (congrArg _ ha)) _
    · rintro ⟨a, u, -, -, -, hu, twice⟩
      cases hu.symm.trans held
      cases once.symm.trans twice
  | cancel call =>
    intro q hq named
    cases hq.symm.trans h.pending_eq
    exact waits.uncancelled (congrArg Command.cancel (Option.some.inj named).symm)
  | timer timer timerId =>
    rintro ⟨rfl, fires⟩
    exact other ⟨timerId, rfl, fires⟩
  | _ => trivial

theorem handle_of_fires {timerId : Nat}
    (fires : (e.timers.get? (.ack k)).any (·.id == timerId) = true) :
    e.handle (.timer (.ack k) timerId) = (e.cancelTimer (.ack k)).ackTimedOut k := by
  rw [Engine.handle, timerFired, if_pos fires]

theorem ackTimedOut_of_lt {tr : Transaction} (configured : e.config = some config)
    (heeded : e.pending[k]?.any e.isAbandoned = false) (held : e.session.outgoing[k]? = some tr)
    (retried : tr.isRetried = true) (lt : tr.retries < config.maxRetries.toNat) :
    let again := e.withSession { e.session with
      outgoing := e.session.outgoing.insert k
        { tr with retries := tr.retries + 1, lastSent := e.now } }
    (∀ d, again.write tr.resend = (d, .ok ()) →
      e.ackTimedOut k = d.schedule (.ack k) d.ackTimeout) ∧
    ∀ d err, again.write tr.resend = (d, .error err) →
      e.ackTimedOut k = d.connectionLost (.transport err) := by
  intro again
  have late := Session.retransmit_of_lt held retried lt e.now
  constructor
  · intro d wrote
    simp only [again] at wrote
    simp only [ackTimedOut, heeded, Bool.false_eq_true, if_false, configured, late, wrote]
  · intro d err wrote
    simp only [again] at wrote
    simp only [ackTimedOut, heeded, Bool.false_eq_true, if_false, configured, late, wrote]

theorem ackTimedOut_of_le {tr : Transaction} (configured : e.config = some config)
    (heeded : e.pending[k]?.any e.isAbandoned = false) (held : e.session.outgoing[k]? = some tr)
    (le : config.maxRetries.toNat ≤ tr.retries) :
    e.ackTimedOut k = (e.forget k).expire k config.timeoutPolicy := by
  simp only [ackTimedOut, heeded, Bool.false_eq_true, if_false, configured,
    Session.retransmit_of_le held le]
  rfl

theorem InFlight.listened (h : InFlight config id p t n e log)
    (heeded : e.abandoned.contains id = false) :
    let stopped := e.cancelTimer (.ack p.packetId)
    stopped.pending[p.packetId]?.any stopped.isAbandoned = false := by
  intro stopped
  have waits : stopped.pending[p.packetId]? = some (.publish id) := h.pending_eq
  rw [waits]
  simpa [isAbandoned, Pending.call?, stopped, cancelTimer] using heeded

theorem InFlight.now_eq (h : InFlight config id p t n e log) {timerId : Nat}
    (onTime : e.OnTime (.timer (.ack p.packetId) timerId)) :
    e.now = repeatAt t config.ackTimeout (n + 1) := by
  obtain ⟨a, armed, tick⟩ := h.timer
  exact Nat.le_antisymm h.now_le (tick ▸ onTime a armed)

theorem InFlight.takes (h : InFlight config id p t n e log) (run : Reachable past e) {link : Link}
    (linked : e.link = some link) : link.Takes (.publish { p with dup := true }) := by
  obtain ⟨order, old, slot⟩ := h.slot_eq
  have held : e.session.outgoing[p.packetId]? = some _ := congrArg Slot.transaction slot
  obtain ⟨config', configured, takes⟩ := run.fitting.takes held
  have limit := run.fitting.limit link linked
  rw [configured, Option.map_some, Option.some.injEq] at limit
  -- the copy is as long as the message was
  exact Link.takes_resend (run.accounted.settled.ledger.sound.fits held) (takes.congr limit.symm)

theorem InFlight.resends (h : InFlight config id p t n e log) (run : Reachable past e)
    (acked : p.qos = .atLeastOnce) {timerId : Nat}
    (onTime : e.OnTime (.timer (.ack p.packetId) timerId))
    (fires : (e.timers.get? (.ack p.packetId)).any (·.id == timerId) = true)
    (heeded : e.abandoned.contains id = false) (lt : n < config.maxRetries.toNat) :
    let d := e.handle (.timer (.ack p.packetId) timerId)
    (d.epoch = e.epoch ∧ InFlight config id p t (n + 1) d (log ++ noted e d)) ∨
    (e.epoch < d.epoch ∧ ∃ link, e.link = some link ∧ link.room = some 0) := by
  intro d
  obtain ⟨order, old, slot⟩ := h.slot_eq
  have held : e.session.outgoing[p.packetId]? = some _ := congrArg Slot.transaction slot
  have now := h.now_eq onTime
  let stopped := e.cancelTimer (.ack p.packetId)
  obtain ⟨through, stuck⟩ :=
    ackTimedOut_of_lt (e := stopped) h.config_eq (h.listened heeded) held rfl lt
  have same : d = stopped.ackTimedOut p.packetId := handle_of_fires fires
  let again : Engine := stopped.withSession { e.session with
    outgoing := e.session.outgoing.insert p.packetId
      { packetId := p.packetId, packet := .publish p, phase := .sent, retries := n + 1
        lastSent := e.now, order } }
  have part : (Packet.publish { p with dup := true }).transaction? = some p.packetId := by
    simp [Packet.transaction?, acked]
  obtain ⟨link, bytes, -, -, -, wrote⟩ | ⟨link, err, linked, refuses, -⟩ |
      ⟨broken, err, -, wrote⟩ := again.write_cases (.publish { p with dup := true })
  · left
    rw [through _ wrote] at same
    have effects : d.effects = e.effects ++ [.write _ _ bytes] := congrArg Engine.effects same
    have timeout : e.ackTimeout = config.ackTimeout := by simp [Engine.ackTimeout, h.config_eq]
    have epoch : d.epoch = e.epoch := by rw [same]; rfl
    have clock : d.now = e.now := by rw [same]; rfl
    refine ⟨epoch, (congrArg Engine.config same).trans h.config_eq,
      ⟨order, e.lastTimerId + 1, ?_⟩, lt, ?_, ?_, ?_⟩
    · rw [same, ← now, ← timeout]
      simp only [Engine.slot, Engine.schedule, Timers.get?_set_self]
      simp [again, stopped, withSession, Engine.cancelTimer, h.pending_eq, Engine.ackTimeout]
    · rw [shipments_noted_write effects part, h.shipped, now, copiesOf_succ]
    · exact Nat.le_of_eq (clock.trans now).symm
    · rw [clock, now]
      exact repeatAt_mono _ _ (Nat.le_succ _)
  · exact absurd (h.takes run linked) refuses
  · right
    rw [stuck _ _ wrote] at same
    have connected : again.session.connection = .connected := h.connected run
    obtain ⟨link, linked⟩ := Option.isSome_iff_exists.1 (run.fitting.linked (h.connected run))
    refine ⟨?_, link, linked, (broken link linked).2⟩
    rw [same]
    exact epoch_lt_connectionLost (e := again) (by simp [connected]) _

theorem inFlight_of_written (run : Reachable past e) (possible : Possible past e c)
    (lasts : (e.handle c).epoch = e.epoch) {before after : Log} {bytes : Bytes}
    (writes : noted e (e.handle c) =
      before ++ (t, .write (some id) (.publish p) bytes) :: after)
    (acked : p.qos = .atLeastOnce) (first : p.dup = false)
    (configured : (e.handle c).config = some config) :
    InFlight config id p t 0 (e.handle c)
      ((t, .write (some id) (.publish p) bytes) :: after) := by
  obtain ⟨out, effects⟩ := (run.reacts possible).effects
  rw [noted, effects, List.drop_left, List.map_eq_append_iff] at writes
  obtain ⟨pre, rest, rfl, -, writes⟩ := writes
  rw [List.map_eq_cons_iff] at writes
  obtain ⟨x, post, rfl, he, rfl⟩ := writes
  obtain ⟨rfl, rfl⟩ := Prod.mk.inj he
  have fresh : (Effect.write (some id) (.publish p) bytes).isFirst p.packetId = true := by
    simp [Effect.isFirst, acked, first]
  obtain ⟨now, begins, calm⟩ :=
    (run.accounted.settled.treats p.packetId c).takes lasts effects fresh
  obtain ⟨packet, sent, phase, order, q, timerId, written, slot⟩ := begins
  obtain ⟨named, rfl, rfl⟩ := Effect.write.inj written
  have settled := (run.handle possible).accounted.settled
  have held : (e.handle c).session.outgoing[p.packetId]? = some _ :=
    congrArg Slot.transaction slot
  have waits : (e.handle c).pending[p.packetId]? = some q := congrArg Slot.pending slot
  -- A release belongs to a message of quality `exactlyOnce`, the other phases to other packets.
  have unreleased : phase = .sent := by
    obtain ⟨_, hp, -⟩ | ⟨_, -, hp, hq, -⟩ | ⟨_, -, hp, -⟩ | ⟨_, -, hp, -⟩ :=
      (settled.ledger.sound.fits held).resend_cases
    · exact hp
    · cases hp
      cases acked.symm.trans hq
    · cases hp
    · cases hp
  have agrees := settled.ledger.agrees p.packetId
  rw [held, waits, unreleased] at agrees
  have publishes : q = .publish id := by
    cases q with
    | publish call => exact congrArg Pending.publish (Option.some.inj named).symm
    | _ => cases agrees
  have timeout : (e.handle c).ackTimeout = config.ackTimeout := by
    simp [Engine.ackTimeout, configured]
  refine ⟨configured, ⟨order, timerId, ?_⟩, Nat.zero_le _, ?_, Nat.le_of_eq now.symm, ?_⟩
  · rw [slot, unreleased, publishes, now, timeout]
    rfl
  · have part : Packet.transaction? (.publish p) = some p.packetId := by
      simp [Packet.transaction?, acked]
    rw [← List.singleton_append, shipments_append, shipments_write part, shipments_of_calm calm]
    rfl
  · rw [now]
    exact repeatAt_mono e.now config.ackTimeout (Nat.zero_le 1)

theorem InFlight.clock (h : InFlight config id p t n e log) {now : Time} (le : e.now ≤ now)
    (waits : ∀ entry ∈ e.timers.toList, now ≤ entry.2.tick) :
    InFlight config id p t n { e with now } log := by
  obtain ⟨a, armed, tick⟩ := h.timer
  have stops := waits (.ack p.packetId, a) (Timers.mem_toList_ack armed)
  dsimp only at stops
  rw [tick] at stops
  exact ⟨h.config_eq, h.slot_eq, h.retries_le, h.shipped, Nat.le_trans h.le_now le, stops⟩

theorem InFlight.drift (h : InFlight config id p t n e log) (drifts : Drifts e d)
    (now : d.now = e.now) : InFlight config id p t n d log := by
  have le_now : repeatAt t config.ackTimeout n ≤ d.now := by rw [now]; exact h.le_now
  have now_le : d.now ≤ repeatAt t config.ackTimeout (n + 1) := by rw [now]; exact h.now_le
  cases drifts <;> exact ⟨h.config_eq, h.slot_eq, h.retries_le, h.shipped, le_now, now_le⟩

theorem InFlight.handle (h : InFlight config id p t n e log) (run : Reachable past e)
    (acked : p.qos = .atLeastOnce) (onTime : e.OnTime c)
    (waits : LeavesOpen p.packetId id
      (repeatAt t config.ackTimeout (config.maxRetries.toNat + 1)) e c) :
    ∃ n, InFlight config id p t n (e.handle c) (log ++ noted e (e.handle c)) := by
  by_cases fires : e.Fires p.packetId c
  · obtain ⟨timerId, rfl, current⟩ := fires
    have early := waits.early ⟨timerId, rfl, current⟩
    -- After the last retry the timer is due at the end of the schedule, and not before.
    have lt : n < config.maxRetries.toNat := by
      rw [h.now_eq onTime] at early
      exact Nat.lt_of_not_le fun le =>
        Nat.not_le.2 early (repeatAt_mono t config.ackTimeout (Nat.succ_le_succ le))
    obtain ⟨-, next⟩ | ⟨lost, -⟩ := h.resends run acked onTime current waits.heeded lt
    · exact ⟨n + 1, next⟩
    · exact absurd waits.lasts (Nat.ne_of_gt lost)
  · have treats := run.accounted.settled.treats p.packetId c
    exact ⟨n, h.respects (treats.respects (h.passes run acked waits fires)) waits.lasts⟩

theorem Unanswered.inFlight
    (h : Unanswered p.packetId id (repeatAt t config.ackTimeout (config.maxRetries.toNat + 1))
      past₀ e₀ log₀ past e log)
    (began : Reachable past₀ e₀) (acked : p.qos = .atLeastOnce)
    (start : InFlight config id p t 0 e₀ log₀) : ∃ n, InFlight config id p t n e log := by
  induction h with
  | refl => exact ⟨0, start⟩
  | handle run _ onTime waits ih =>
    obtain ⟨n, flies⟩ := ih
    exact flies.handle (run.reachable began) acked onTime waits
  | clock _ _ le waits ih =>
    obtain ⟨n, flies⟩ := ih
    exact ⟨n, flies.clock le waits⟩
  | drift _ drifts now ih =>
    obtain ⟨n, flies⟩ := ih
    exact ⟨n, flies.drift drifts now⟩

theorem outgoing_connectionLost (free : e.session.outgoing[k]? = none) (cause : ConnectionError) :
    (e.connectionLost cause).session.outgoing[k]? = none := by
  obtain ⟨effects, -, torn⟩ := e.teardown_eq
  have cleared : ∀ d : Engine, ∀ err,
      ((d.failAll err).cleanSession).session.outgoing[k]? = none :=
    fun d err => Std.TreeMap.getElem?_emptyc
  unfold connectionLost
  split
  · exact free
  · dsimp only
    split
    · exact cleared _ _
    · rw [torn]
      exact free
    · exact cleared _ _

theorem InFlight.handle_of_spent (h : InFlight config id p t n e log) {timerId : Nat}
    (fires : (e.timers.get? (.ack p.packetId)).any (·.id == timerId) = true)
    (heeded : e.abandoned.contains id = false) (spent : config.maxRetries.toNat ≤ n) :
    e.handle (.timer (.ack p.packetId) timerId) = match config.timeoutPolicy with
      | .drop => (e.expired p.packetId id).drainBacklog
      | .reset => (e.expired p.packetId id).connectionLost (.transactionTimeout p.packetId) := by
  obtain ⟨order, old, slot⟩ := h.slot_eq
  have held : e.session.outgoing[p.packetId]? = some _ := congrArg Slot.transaction slot
  have waits : ((e.cancelTimer (.ack p.packetId)).forget p.packetId).pending[p.packetId]? =
    some (.publish id) := h.pending_eq
  rw [handle_of_fires fires,
    ackTimedOut_of_le (e := e.cancelTimer (.ack p.packetId)) h.config_eq (h.listened heeded) held
      spent]
  unfold expire
  rw [waits]
  rfl

theorem InFlight.never (h : InFlight config id p t n e log) (run : Reachable past e)
    (reached : Reachable (past ++ [c]) d) (ignores : Ignores id (e.expired p.packetId id) d) :
    ∀ past' f, Leads (past ++ [c]) d past' f → f.Absent id ∧
      ∃ out, f.requests = e.requests ++ out ∧ ∀ packet, (some id, packet) ∉ out := by
  have absent := run.absent_withdrawn h.pending_eq rfl
  have told : (e.expired p.packetId id).requests = e.requests := by
    change (e.effects ++ [_]).filterMap Effect.request? = _
    simp [Effect.request?, requests]
  obtain ⟨gone, out, he, silent⟩ := ignores ⟨absent.waits, absent.backlog⟩
  have made : ∃ c' ∈ past ++ [c], c'.call? = some id := by
    obtain ⟨call, made, he⟩ | ⟨paths, he⟩ := run.known.pending h.pending_eq
    · refine ⟨.call call, List.mem_append_left _ made, ?_⟩
      exact (call?_pending call).symm.trans (congrArg Pending.call? he.symm)
    · cases he
  intro past' f leads
  obtain ⟨missing, out', he', silent'⟩ := gone.drops reached made past' f leads
  refine ⟨missing, out ++ out', by rw [he', he, told, List.append_assoc], fun packet hm => ?_⟩
  exact (List.mem_append.1 hm).elim (silent packet) (silent' packet)

theorem InFlight.drops (h : InFlight config id p t n e log) (run : Reachable past e)
    (unlimited : ∀ link, e.link = some link → link.room = none)
    (reached : Reachable (past ++ [c]) (e.expired p.packetId id).drainBacklog)
    (policy : config.timeoutPolicy = .drop) :
    Expires config p.packetId id (past ++ [c]) e (e.expired p.packetId id).drainBacklog := by
  let expired := e.expired p.packetId id
  have free : expired.session.outgoing[p.packetId]? = none := Std.TreeMap.getElem?_erase_self
  obtain ⟨link, linked⟩ := Option.isSome_iff_exists.1 (run.fitting.linked (h.connected run))
  have whole : Whole link.maxOutgoing expired :=
    ⟨h.connected run, by rw [← unlimited link linked]; exact linked⟩
  have connected := whole.drainBacklog.connected
  have epoch : expired.drainBacklog.epoch = e.epoch :=
    expired.keeps_drainBacklog.epoch_eq connected
  obtain ⟨-, -, out, effects, fate⟩ :=
    (respects_drainBacklog (k := p.packetId) expired).lasts epoch
  refine ⟨⟨out, effects.trans (List.append_assoc _ _ _), ?_⟩,
    h.never run reached (expired.ignores_drainBacklog id),
    iff_of_true ⟨connected, epoch⟩ policy⟩
  cases fate with
  | alone _ transaction => exact .inl (reached.slot_of_free (transaction.trans free))
  | @taken x _ wrote begins =>
    have written : x ∈ out := by
      have one : x ∈ out.filter (Effect.isOf p.packetId) := wrote ▸ List.mem_singleton_self x
      exact (List.mem_filter.1 one).1
    exact .inr ⟨x, written, begins.congr rfl rfl⟩

theorem InFlight.resets (h : InFlight config id p t n e log) (run : Reachable past e)
    (reached : Reachable (past ++ [c])
      ((e.expired p.packetId id).connectionLost (.transactionTimeout p.packetId)))
    (policy : config.timeoutPolicy = .reset) :
    Expires config p.packetId id (past ++ [c]) e
      ((e.expired p.packetId id).connectionLost (.transactionTimeout p.packetId)) := by
  let expired := e.expired p.packetId id
  have free : expired.session.outgoing[p.packetId]? = none := Std.TreeMap.getElem?_erase_self
  obtain ⟨out, effects, -⟩ := expired.effects_connectionLost (.transactionTimeout p.packetId)
  have ignores := (expired.rests_connectionLost (.transactionTimeout p.packetId)).toWanes.ignores id
  refine ⟨⟨out, effects.trans (List.append_assoc _ _ _),
    .inl (reached.slot_of_free (outgoing_connectionLost free _))⟩, h.never run reached ignores, ?_⟩
  have gone := expired.connectionLost_connection (.transactionTimeout p.packetId)
  simp [policy, gone, expired]

theorem InFlight.expires (h : InFlight config id p t n e log) (run : Reachable past e)
    {timerId : Nat} (fires : (e.timers.get? (.ack p.packetId)).any (·.id == timerId) = true)
    (heeded : e.abandoned.contains id = false) (spent : config.maxRetries.toNat ≤ n)
    (unlimited : ∀ link, e.link = some link → link.room = none) :
    Expires config p.packetId id (past ++ [.timer (.ack p.packetId) timerId]) e
      (e.handle (.timer (.ack p.packetId) timerId)) := by
  have reached := run.handle (c := .timer (.ack p.packetId) timerId) ⟨nofun, nofun, nofun⟩
  rw [h.handle_of_spent fires heeded spent] at reached ⊢
  cases policy : config.timeoutPolicy with
  | drop =>
    rw [policy] at reached
    exact h.drops run unlimited reached policy
  | reset =>
    rw [policy] at reached
    exact h.resets run reached policy

theorem InFlight.onSchedule (h : InFlight config id p t n e log) (run : Reachable past e)
    (acked : p.qos = .atLeastOnce) : OnSchedule config id p t n past e log := by
  obtain ⟨a, armed, tick⟩ := h.timer
  have fires : (e.timers.get? (.ack p.packetId)).any (·.id == a.id) = true := by simp [armed]
  refine ⟨h.shipped, h.le_now, h.now_le, a, armed, tick, fun due heeded => ⟨fun lt room => ?_, ?_⟩⟩
  · have onTime : e.OnTime (.timer (.ack p.packetId) a.id) := by
      intro b hb
      cases armed.symm.trans hb
      exact Nat.le_of_eq due.symm
    obtain ⟨same, next⟩ | ⟨-, link, linked, broken⟩ := h.resends run acked onTime fires heeded lt
    · exact ⟨same, next.shipped⟩
    · exact absurd broken (room link linked)
  · rintro rfl unlimited
    exact h.expires run fires heeded (Nat.le_refl _) unlimited

end

/-- A message of quality `atLeastOnce` that goes out for the first time and is not acknowledged goes
out again at each tick with which the timeout has passed since the last time, marked as sent before
and otherwise the same, until the retries are used up; with whole milliseconds that is each time the
timeout has passed. Once it has passed after the last retry, the call fails, nothing is left of it,
and the connection lives on if and only if the configuration says so. -/
theorem onSchedule_of_unanswered {past₀ past : List Command} {e₀ e : Engine} {c : Command}
    {before after log : Log} {t : Time} {id : CallId} {p : Publish} {bytes : Bytes}
    {config : Config} (h : Reachable past₀ e₀) (possible : Possible past₀ e₀ c)
    (writes : noted e₀ (e₀.handle c) =
      before ++ (t, .write (some id) (.publish p) bytes) :: after)
    (acked : p.qos = .atLeastOnce) (first : p.dup = false)
    (lasts : (e₀.handle c).epoch = e₀.epoch) (configured : (e₀.handle c).config = some config)
    (run : Unanswered p.packetId id
      (repeatAt t config.ackTimeout (config.maxRetries.toNat + 1)) (past₀ ++ [c]) (e₀.handle c)
      ((t, .write (some id) (.publish p) bytes) :: after) past e log) :
    (1000000 ∣ t → 1000000 ∣ config.ackTimeout.nanos →
      ∀ n, repeatAt t config.ackTimeout n = t + n * config.ackTimeout.nanos) ∧
    ∃ n ≤ config.maxRetries.toNat, OnSchedule config id p t n past e log := by
  have began := h.handle possible
  have start := inFlight_of_written h possible lasts writes acked first configured
  obtain ⟨n, flies⟩ := run.inFlight began acked start
  exact ⟨repeatAt_of_dvd, n, flies.retries_le, flies.onSchedule (run.reachable began) acked⟩

def insistent (timeout : Duration) : Config :=
  { lively 0 with ackTimeoutOption := some timeout, maxRetries := 1 }

def insisting (timeout : Duration) : List Command :=
  [.connect 0 (insistent timeout), .opened 1 (.ok none), answer]

def reminder : Publish := { qos := .atLeastOnce, topic := "t", payload := [] }

def remind : Command := .call (.publish 1 reminder)

def reminded (timeout : Duration) : Engine := ((insisting timeout).foldl handle {}).handle remind

def remindedLog : Log :=
  [(0, .write (some 1) (.publish { reminder with packetId := 1 }) [50, 6, 0, 1, 116, 0, 1, 0])]

def overlooked (timeout : Duration) (due : Time) : Engine := { reminded timeout with now := due }

def remindedAgain (timeout : Duration) (due : Time) : Engine :=
  (overlooked timeout due).handle (.timer (.ack 1) 2)

def remindedAgainLog (timeout : Duration) (due : Time) : Log :=
  remindedLog ++ noted (overlooked timeout due) (remindedAgain timeout due)

def reminders : List (Duration × Time) :=
  [(.ofSeconds 5, 5000000000), (.ofNanos 1500000, 2000000)]

theorem writes_reminded {s : Duration × Time} (h : s ∈ reminders) :
    noted ((insisting s.1).foldl handle {}) (reminded s.1) = [] ++ remindedLog := by
  have written : ∀ s ∈ reminders,
      noted ((insisting s.1).foldl handle {}) (reminded s.1) = [] ++ remindedLog := by
    decide +kernel
  exact written s h

theorem unanswered_remindedAgain {s : Duration × Time} (h : s ∈ reminders) {due : Time}
    (early : s.2 < due) :
    Unanswered 1 1 due (insisting s.1 ++ [remind]) (reminded s.1) remindedLog
      (insisting s.1 ++ [remind] ++ [.timer (.ack 1) 2]) (remindedAgain s.1 s.2)
      (remindedAgainLog s.1 s.2) := by
  have waits : ∀ s ∈ reminders, ∀ entry ∈ (reminded s.1).timers.toList, s.2 ≤ entry.2.tick := by
    decide +kernel
  have later : ∀ s ∈ reminders, (reminded s.1).now ≤ s.2 := by decide +kernel
  have fires : ∀ s ∈ reminders,
      ((overlooked s.1 s.2).timers.get? (.ack 1)).all (·.tick ≤ (overlooked s.1 s.2).now) := by
    decide +kernel
  have heeded : ∀ s ∈ reminders, (overlooked s.1 s.2).abandoned.contains 1 = false := by
    decide +kernel
  have lasts : ∀ s ∈ reminders,
      ((overlooked s.1 s.2).handle (.timer (.ack 1) 2)).epoch = (overlooked s.1 s.2).epoch := by
    decide +kernel
  have onTime : (overlooked s.1 s.2).OnTime (.timer (.ack 1) 2) := by
    intro a armed
    have due := fires s h
    rw [armed, Option.all_some] at due
    exact of_decide_eq_true due
  have forgets : LeavesOpen 1 1 due (overlooked s.1 s.2) (.timer (.ack 1) 2) :=
    ⟨by simp, by simp, heeded s h, lasts s h, fun _ => early⟩
  have waited : Unanswered 1 1 due (insisting s.1 ++ [remind]) (reminded s.1) remindedLog
      (insisting s.1 ++ [remind]) (overlooked s.1 s.2) remindedLog :=
    Unanswered.refl.clock s.2 (later s h) (waits s h)
  exact waited.handle ⟨nofun, nofun, nofun⟩ onTime forgets

theorem reachable_insisting {s : Duration × Time} (h : s ∈ reminders) :
    Reachable (insisting s.1) ((insisting s.1).foldl handle {}) ∧
      Possible (insisting s.1) ((insisting s.1).foldl handle {}) remind := by
  have run : ∀ s ∈ reminders, isRun [] {} (insisting s.1) = true := by decide +kernel
  have possible : ∀ s ∈ reminders,
      isPossible (insisting s.1) ((insisting s.1).foldl handle {}) remind = true := by
    decide +kernel
  exact ⟨reachable_of_isRun (run s h), possible_of_isPossible (possible s h)⟩

def givenUp : Engine :=
  { remindedAgain (.ofSeconds 5) 5000000000 with now := 10000000000 }

theorem onSchedule_givenUp :
    (∃ n ≤ 1, OnSchedule (insistent (.ofSeconds 5)) 1 { reminder with packetId := 1 } 0 n
      (insisting (.ofSeconds 5) ++ [remind] ++ [.timer (.ack 1) 2]) givenUp
      (remindedAgainLog (.ofSeconds 5) 5000000000)) ∧
    shipments 1 (remindedAgainLog (.ofSeconds 5) 5000000000) =
      [(0, .publish { reminder with packetId := 1 }),
        (5000000000, .publish { reminder with packetId := 1, dup := true })] ∧
    repeatAt 0 (insistent (.ofSeconds 5)).ackTimeout 2 = 0 + 2 * 5000000000 := by
  have one : ((.ofSeconds 5, 5000000000) : Duration × Time) ∈ reminders := by simp [reminders]
  obtain ⟨run, possible⟩ := reachable_insisting one
  have waits : ∀ entry ∈ (remindedAgain (.ofSeconds 5) 5000000000).timers.toList,
      10000000000 ≤ entry.2.tick := by decide +kernel
  have later : (remindedAgain (.ofSeconds 5) 5000000000).now ≤ 10000000000 := by decide +kernel
  have lasts : (reminded (.ofSeconds 5)).epoch
      = ((insisting (.ofSeconds 5)).foldl handle {}).epoch := by decide +kernel
  have configured : (reminded (.ofSeconds 5)).config = some (insistent (.ofSeconds 5)) := by
    decide +kernel
  have early : 5000000000 < repeatAt 0 (insistent (.ofSeconds 5)).ackTimeout 2 := by decide +kernel
  have unanswered := (unanswered_remindedAgain one early).clock 10000000000 later waits
  obtain ⟨whole, onSchedule⟩ := onSchedule_of_unanswered run possible (writes_reminded one) rfl rfl
    lasts configured unanswered
  exact ⟨onSchedule, by decide +kernel, whole (by decide) (by decide +kernel) 2⟩

/-- A timeout that is no whole number of milliseconds is rounded up each time, so that the message
goes out late. -/
theorem not_shipments_eq :
    ¬ ∀ past₀ past e₀ e c before after log t id p bytes config, Reachable past₀ e₀ →
      Possible past₀ e₀ c →
      noted e₀ (e₀.handle c) = before ++ (t, .write (some id) (.publish p) bytes) :: after →
      p.qos = .atLeastOnce → p.dup = false → (e₀.handle c).epoch = e₀.epoch →
      (e₀.handle c).config = some config → 1000000 ≤ config.ackTimeout.nanos →
      Unanswered p.packetId id (t + (config.maxRetries.toNat + 1) * config.ackTimeout.nanos)
        (past₀ ++ [c]) (e₀.handle c) ((t, .write (some id) (.publish p) bytes) :: after)
        past e log →
      ∃ n ≤ config.maxRetries.toNat, shipments p.packetId log =
        (t, .publish p) :: (List.range n).map fun i =>
          (t + (i + 1) * config.ackTimeout.nanos, .publish { p with dup := true }) := by
  intro always
  have one : ((.ofNanos 1500000, 2000000) : Duration × Time) ∈ reminders := by simp [reminders]
  obtain ⟨run, possible⟩ := reachable_insisting one
  have lasts : (reminded (.ofNanos 1500000)).epoch
      = ((insisting (.ofNanos 1500000)).foldl handle {}).epoch := by decide +kernel
  have configured : (reminded (.ofNanos 1500000)).config = some (insistent (.ofNanos 1500000)) := by
    decide +kernel
  have early : 2000000 < 0 + ((insistent (.ofNanos 1500000)).maxRetries.toNat + 1) *
      (insistent (.ofNanos 1500000)).ackTimeout.nanos := by decide +kernel
  have late : shipments 1 (remindedAgainLog (.ofNanos 1500000) 2000000) =
      [(0, .publish { reminder with packetId := 1 }),
        (2000000, .publish { reminder with packetId := 1, dup := true })] := by decide +kernel
  obtain ⟨n, -, he⟩ := always _ _ _ _ _ _ _ _ _ _ _ _ _ run possible (writes_reminded one) rfl rfl
    lasts configured (by decide +kernel) (unanswered_remindedAgain one early)
  have again := (List.cons.inj (late.symm.trans he)).2
  obtain ⟨i, -, due⟩ := List.mem_map.1 (again ▸ List.mem_singleton_self _)
  have timeout : (insistent (.ofNanos 1500000)).ackTimeout.nanos = 1500000 := by decide +kernel
  replace due := congrArg Prod.fst due
  dsimp only at due
  rw [timeout] at due
  have never : ∀ i : Nat, 0 + (i + 1) * 1500000 ≠ 2000000 := by omega
  exact never i due

end Engine

end MqttClient
