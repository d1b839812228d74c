import MqttClient.Proofs.Engine.Arming
import MqttClient.Proofs.Engine.Cancelling

/-! What the engine holds under one packet identifier: a transaction, who waits for it and the timer
of its acknowledgement. A command leaves all this alone unless it is about that identifier, and an
identifier that is free is taken by one request, which is written as the transaction is opened and
its timer armed. -/

namespace MqttClient

structure Slot where
  transaction : Option Transaction
  pending : Option Pending
  timer : Option Armed

/-- An acknowledged message goes out for the first time under an identifier. -/
def Effect.isFirst (k : UInt16) : Effect → Bool
  | .write _ (.publish p) _ => p.qos != .atMostOnce && !p.dup && p.packetId == k
  | _ => false

theorem Effect.isOf_of_isFirst {k : UInt16} {x : Effect} (h : x.isFirst k = true) :
    x.isOf k = true := by
  cases x with
  | write call packet bytes =>
    cases packet with
    | publish p =>
      simp only [isFirst, Bool.and_eq_true, bne_iff_ne, beq_iff_eq] at h
      obtain ⟨⟨acked, -⟩, rfl⟩ := h
      rw [isOf_iff, Packet.transaction?, if_neg acked]
    | _ => cases h
  | _ => cases h

theorem Effect.filter_isOf_of_silent {out : List Effect} (silent : out.any Effect.isWrite = false)
    (k : UInt16) : out.filter (Effect.isOf k) = [] := by
  have none := not_isOf_of_silent silent k
  exact List.filter_eq_nil_iff.2 (List.any_eq_false.1 none)

theorem Transaction.Fits.not_isFirst_resend {t : Transaction} {j : UInt16} (fits : t.Fits j)
    (k : UInt16) (call : Option CallId) (bytes : Bytes) :
    (Effect.write call t.resend bytes).isFirst k = false := by
  obtain ⟨p, -, -, -, -, he⟩ | ⟨p, -, -, -, he⟩ | ⟨p, -, -, -, he⟩ | ⟨p, -, -, -, he⟩ :=
    fits.resend_cases
  all_goals rw [he]
  · simp [Effect.isFirst]
  all_goals rfl

namespace Engine

def slot (e : Engine) (k : UInt16) : Slot where
  transaction := e.session.outgoing[k]?
  pending := e.pending[k]?
  timer := e.timers.get? (.ack k)

/-- The slot was taken with the packet that goes out now. -/
def Begins (k : UInt16) (e : Engine) (x : Effect) (s : Slot) : Prop :=
  ∃ packet bytes phase order p id,
    x = .write p.call? packet bytes ∧ s = {
      transaction := some { packetId := k, packet, phase, lastSent := e.now, order }
      pending := some p
      timer := some { id, deadline := e.now + e.ackTimeout.nanos } }

/-- What becomes of a slot, and what is written under its identifier. -/
inductive Fate (k : UInt16) (e : Engine) (out : List Effect) (s : Slot) : Prop
  | alone (calm : out.filter (Effect.isOf k) = [])
    (transaction : s.transaction = e.session.outgoing[k]?)
    (kept : e.session.outgoing[k]? ≠ none → s = e.slot k)
  | taken {x : Effect} (free : e.session.outgoing[k]? = none)
    (wrote : out.filter (Effect.isOf k) = [x]) (begins : Begins k e x s)

/-- As long as the connection lasts, a slot that is taken is left alone, and one that is free is
taken once at most. -/
structure Respects (k : UInt16) (e d : Engine) : Prop where
  epoch_le : e.epoch ≤ d.epoch
  lasts : d.epoch = e.epoch → d.now = e.now ∧ d.config = e.config ∧
    ∃ out, d.effects = e.effects ++ out ∧ Fate k e out (d.slot k)

section

variable {k j : UInt16} {e d f m : Engine} {x : Effect} {s : Slot} {out : List Effect}

theorem Begins.congr (h : Begins k d x s) (now : d.now = e.now) (config : d.config = e.config) :
    Begins k e x s := by
  obtain ⟨packet, bytes, phase, order, p, id, rfl, rfl⟩ := h
  have timeout : d.ackTimeout = e.ackTimeout := by rw [ackTimeout, ackTimeout, config]
  exact ⟨packet, bytes, phase, order, p, id, rfl, by rw [now, timeout]⟩

theorem Respects.lost (h : e.epoch < d.epoch) : Respects k e d :=
  ⟨Nat.le_of_lt h, fun same => absurd same (Nat.ne_of_gt h)⟩

theorem Respects.of_eq (epoch : d.epoch = e.epoch) (now : d.now = e.now)
    (config : d.config = e.config) (effects : d.effects = e.effects ++ out)
    (calm : out.filter (Effect.isOf k) = []) (slot : d.slot k = e.slot k) : Respects k e d :=
  ⟨Nat.le_of_eq epoch.symm, fun _ => ⟨now, config, out, effects,
    .alone calm (congrArg Slot.transaction slot) fun _ => slot⟩⟩

theorem Respects.of_eq' (epoch : d.epoch = e.epoch) (now : d.now = e.now)
    (config : d.config = e.config) (effects : d.effects = e.effects)
    (slot : d.slot k = e.slot k) : Respects k e d :=
  .of_eq epoch now config (effects.trans (List.append_nil _).symm) rfl slot

theorem Respects.refl (k : UInt16) (e : Engine) : Respects k e e :=
  .of_eq' rfl rfl rfl rfl rfl

theorem Respects.trans (h : Respects k e d) (h' : Respects k d f) : Respects k e f := by
  refine ⟨Nat.le_trans h.epoch_le h'.epoch_le, fun same => ?_⟩
  have later := h'.epoch_le
  have earlier := h.epoch_le
  obtain ⟨now, config, out, effects, fate⟩ := h.lasts (by omega)
  obtain ⟨now', config', out', effects', fate'⟩ := h'.lasts (by omega)
  refine ⟨now'.trans now, config'.trans config, out ++ out',
    by rw [effects', effects, List.append_assoc], ?_⟩
  -- Once the slot is taken it is not free again, so that it is taken by one of the two at most.
  cases fate with
  | alone calm transaction kept =>
    have untaken : d.session.outgoing[k]? = e.session.outgoing[k]? := transaction
    cases fate' with
    | alone calm' transaction' kept' =>
      refine .alone (by rw [List.filter_append, calm, calm', List.append_nil])
        (transaction'.trans untaken) fun held => ?_
      exact (kept' (untaken ▸ held)).trans (kept held)
    | taken free wrote begins =>
      exact .taken (untaken ▸ free) (by rw [List.filter_append, calm, wrote, List.nil_append])
        (begins.congr now config)
  | taken free wrote begins =>
    have held : d.session.outgoing[k]? ≠ none := by
      obtain ⟨packet, bytes, phase, order, p, id, -, he⟩ := begins
      have transaction : d.session.outgoing[k]? = some _ := congrArg Slot.transaction he
      simp [transaction]
    cases fate' with
    | alone calm' _ kept' =>
      refine .taken free (by rw [List.filter_append, wrote, calm', List.append_nil]) ?_
      rwa [kept' held]
    | taken free' => exact absurd free' held

theorem Respects.keeps (h : Respects k e d) (same : d.epoch = e.epoch)
    (held : e.session.outgoing[k]? ≠ none) :
    d.now = e.now ∧ d.config = e.config ∧ d.slot k = e.slot k ∧
      ∃ out, d.effects = e.effects ++ out ∧ out.filter (Effect.isOf k) = [] := by
  obtain ⟨now, config, out, effects, fate⟩ := h.lasts same
  cases fate with
  | alone calm _ kept => exact ⟨now, config, kept held, out, effects, calm⟩
  | taken free => exact absurd free held

theorem slot_schedule (e : Engine) {timer : Timer} (ne : .ack k ≠ timer) (delay : Duration) :
    (e.schedule timer delay).slot k = e.slot k := by
  have same := Timers.get?_set_of_ne e.timers
    { id := e.lastTimerId + 1, deadline := e.now + delay.nanos } ne
  exact congrArg (Slot.mk _ _) same

theorem slot_cancelTimer (e : Engine) {timer : Timer} (ne : .ack k ≠ timer) :
    (e.cancelTimer timer).slot k = e.slot k :=
  congrArg (Slot.mk _ _) (Timers.get?_erase_of_ne e.timers ne)

theorem slot_erasePending (e : Engine) (ne : j ≠ k) : (e.erasePending j).slot k = e.slot k := by
  simp [slot, erasePending, Std.TreeMap.getElem?_erase, ne]

theorem slot_forget (e : Engine) (ne : j ≠ k) : (e.forget j).slot k = e.slot k := by
  simp [slot, forget, withSession, Session.forget, Std.TreeMap.getElem?_erase, ne]

theorem respects_emit (e : Engine) (silent : x.isWrite = false) : Respects k e (e.emit x) :=
  .of_eq rfl rfl rfl rfl (Effect.filter_isOf_of_silent (by simp [silent]) k) rfl

theorem respects_failPending (e : Engine) (p : Pending) (err : ClientError) :
    Respects k e (e.failPending p err) := by
  unfold failPending
  split
  · exact e.respects_emit rfl
  · exact .refl k e

theorem respects_schedule (e : Engine) {timer : Timer} (ne : .ack k ≠ timer) (delay : Duration) :
    Respects k e (e.schedule timer delay) :=
  .of_eq' rfl rfl rfl rfl (e.slot_schedule ne delay)

theorem respects_cancelTimer (e : Engine) {timer : Timer} (ne : .ack k ≠ timer) :
    Respects k e (e.cancelTimer timer) :=
  .of_eq' rfl rfl rfl rfl (e.slot_cancelTimer ne)

theorem epoch_lt_connectionLost (alive : e.session.connection = .disconnected → e.link.isSome)
    (cause : ConnectionError) : e.epoch < (e.connectionLost cause).epoch :=
  (parts_connectionLost (c := .cancel 0) e cause alive).epoch_lt

theorem connectionLost_cases (e : Engine) (cause : ConnectionError) :
    e.connectionLost cause = e ∨ e.epoch < (e.connectionLost cause).epoch := by
  by_cases gone : e.session.connection = .disconnected ∧ e.link = none
  · exact .inl (connectionLost_of_gone gone.1 gone.2 cause)
  · refine .inr (epoch_lt_connectionLost (fun disconnected => ?_) cause)
    exact Option.isSome_iff_ne_none.2 fun unlinked => gone ⟨disconnected, unlinked⟩

theorem respects_connectionLost (e : Engine) (cause : ConnectionError) :
    Respects k e (e.connectionLost cause) := by
  obtain he | lost := e.connectionLost_cases cause
  · rw [he]
    exact .refl k e
  · exact .lost lost

theorem respects_write (e : Engine) {d : Engine} {packet : Packet}
    (other : packet.transaction? ≠ some k) {result : Except TransportError Unit}
    (wrote : e.write packet = (d, result)) : Respects k e d := by
  obtain ⟨link, bytes, -, -, -, he⟩ | ⟨link, err, -, -, he⟩ | ⟨-, err, -, he⟩ :=
    e.write_cases packet
  all_goals cases wrote.symm.trans he
  · refine .of_eq rfl rfl rfl rfl ?_ rfl
    simpa [Effect.isOf, Effect.packet?] using other
  · exact .refl k _
  · exact .refl k _

theorem respects_writeOrLose (e : Engine) {packet : Packet}
    (other : packet.transaction? ≠ some k) : Respects k e (e.writeOrLose packet) := by
  unfold writeOrLose
  split
  · next wrote => exact e.respects_write other wrote
  · next wrote => exact (e.respects_write other wrote).trans (respects_connectionLost _ _)

theorem respects_sendDisconnect (e : Engine) (reason : DisconnectReason) :
    Respects k e (e.sendDisconnect reason) := by
  obtain he | ⟨link, room, bytes, -, he⟩ := e.sendDisconnect_cases reason
  all_goals rw [he]
  · exact .refl k e
  · exact .of_eq rfl rfl rfl rfl rfl rfl

theorem respects_sendUnacknowledged (e : Engine) (id : CallId) {packet : Packet}
    (other : packet.transaction? ≠ some k) : Respects k e (e.sendUnacknowledged id packet) := by
  unfold sendUnacknowledged
  split
  · next wrote => exact (e.respects_write other wrote).trans (respects_emit _ rfl)
  · next wrote => exact (e.respects_write other wrote).trans (respects_emit _ rfl)
  · next wrote =>
    exact ((e.respects_write other wrote).trans (respects_emit _ rfl)).trans
      (respects_connectionLost _ _)

theorem respects_transmit (e : Engine) (connected : e.session.connection = .connected)
    (free : e.session.outgoing[j]? = none) {packet : Packet} (part : packet.transaction? = some j)
    (asks : ∀ d : Engine, d.requester packet = d.pending[j]?.bind Pending.call?) (phase : Phase)
    (t : SubscriptionTable HandlerId) (p : Pending) :
    Respects k e (({ e.withSession (e.session.track e.now j packet phase) with
      subscriptions := t } : Engine).transmit j packet p) := by
  let opened : Engine := { e.withSession (e.session.track e.now j packet phase) with
    subscriptions := t }
  let waiting : Engine := { opened with pending := opened.pending.insert j p }
  obtain ⟨link, bytes, -, -, -, he⟩ | ⟨link, err, -, -, he⟩ | ⟨-, err, ne, he⟩ :=
    waiting.write_cases packet
  · rw [transmit_of_ok (e := opened) he]
    have asked : waiting.requester packet = p.call? := by
      rw [asks]
      simp [waiting]
    refine ⟨Nat.le_refl _, fun _ => ⟨rfl, rfl, [.write p.call? packet bytes], ?_, ?_⟩⟩
    · exact congrArg (fun call => e.effects ++ [Effect.write call packet bytes]) asked
    · by_cases same : j = k
      · subst same
        refine .taken (x := .write p.call? packet bytes) free ?_ ?_
        · simp [Effect.isOf, Effect.packet?, part]
        · refine ⟨packet, bytes, phase, e.session.lastOrder + 1, p, e.lastTimerId + 1, rfl, ?_⟩
          simp only [slot, Engine.schedule, Timers.get?_set_self]
          simp [waiting, opened, withSession, Session.track, ackTimeout]
      · have spared : ({ waiting with
            link := some { link with room := link.room.map (· - 1) }
            effects := waiting.effects ++ [.write (waiting.requester packet) packet bytes]
            session := { waiting.session with lastOutgoing := waiting.now } } : Engine).slot k
              = e.slot k := by
          simp [slot, waiting, opened, withSession, Session.track, Std.TreeMap.getElem?_insert,
            same]
        have others : Timer.ack k ≠ .ack j := by simpa using Ne.symm same
        have slot := (slot_schedule _ others waiting.ackTimeout).trans spared
        exact .alone (by simpa [Effect.isOf, Effect.packet?, part] using same)
          (congrArg Slot.transaction slot) fun _ => slot
  · rw [transmit_of_encoding (e := opened) he, dropPending_eq]
    refine ⟨Nat.le_refl _, fun _ => ⟨rfl, rfl, _, rfl, ?_⟩⟩
    refine .alone (Effect.filter_isOf_of_silent (by simp [Effect.isWrite]) k) ?_ fun held => ?_
    · simp only [slot, waiting, opened, erasePending, forget, withSession, Session.forget,
        Session.track, Std.TreeMap.getElem?_erase, Std.TreeMap.getElem?_insert]
      by_cases same : j = k
      · simp [same, ← same ▸ free]
      · simp [same]
    · have same : j ≠ k := fun same => held (same ▸ free)
      simp [slot, waiting, opened, erasePending, forget, withSession, Session.forget,
        Session.track, Std.TreeMap.getElem?_erase, Std.TreeMap.getElem?_insert, same]
  · rw [transmit_of_error (e := opened) he ne]
    have alive : waiting.session.connection = .connected := connected
    exact .lost (epoch_lt_connectionLost (e := waiting) (by simp [alive]) _)

theorem respects_start (e : Engine) {phase : Phase} {mk : UInt16 → Packet} {s : Session}
    {packet : Packet} (hs : e.session.start e.now phase mk = (s, .ok packet))
    (hid : ∀ j, packetIdOf (mk j) = j) (part : ∀ j, (mk j).transaction? = some j)
    (asks : ∀ (d : Engine) (j : UInt16), d.requester (mk j) = d.pending[j]?.bind Pending.call?)
    (t : SubscriptionTable HandlerId) (p : Pending) :
    Respects k e (({ e.withSession s with subscriptions := t } : Engine).transmit
      (packetIdOf packet) packet p) := by
  obtain ⟨j, connected, free, -, rfl, rfl⟩ := Session.start_eq_ok hs
  rw [hid]
  exact e.respects_transmit connected free (part j) (asks · j) phase t p

theorem respects_refused (e : Engine) {phase : Phase} {mk : UInt16 → Packet} {s : Session}
    {err : SessionError} (hs : e.session.start e.now phase mk = (s, .error err))
    (t : SubscriptionTable HandlerId) (id : CallId) (why : ClientError) :
    Respects k e (({ e.withSession s with subscriptions := t } : Engine).fail id why) := by
  obtain ⟨rfl, -⟩ := Session.start_eq_error hs
  exact .of_eq rfl rfl rfl rfl rfl rfl

theorem respects_sendCall (e : Engine) (call : Call) : Respects k e (e.sendCall call) := by
  cases call with
  | publish id p =>
    simp only [sendCall, Session.send, Session.sendPublish]
    by_cases hq : p.qos = .atMostOnce
    · simp only [hq, if_true]
      split
      · next hs =>
        split at hs <;> cases hs
        exact respects_sendUnacknowledged _ id (by simp [Packet.transaction?])
      · next hs =>
        split at hs <;> cases hs
        exact respects_emit _ rfl
    · simp only [hq, if_false]
      split
      · next hs =>
        exact e.respects_start hs (fun _ => rfl) (fun j => by simp [Packet.transaction?, hq])
          (fun d j => by simp [requester, hq]) e.subscriptions _
      · next hs => exact e.respects_refused hs e.subscriptions id _
  | subscribe id p handler =>
    simp only [sendCall, Session.send]
    split
    · next hs =>
      exact e.respects_start hs (fun _ => rfl) (fun _ => rfl) (fun _ _ => rfl) _ _
    · next hs => exact e.respects_refused hs e.subscriptions id _
  | unsubscribe id p =>
    simp only [sendCall, Session.send]
    split
    · next hs =>
      exact e.respects_start hs (fun _ => rfl) (fun _ => rfl) (fun _ _ => rfl)
        (e.subscriptions.eraseAll p.filters) _
    · next hs => exact e.respects_refused hs (e.subscriptions.eraseAll p.filters) id _

theorem respects_drainBacklog (e : Engine) : Respects k e e.drainBacklog :=
  drainLoop_induction (motive := Respects k e) e.backlog.length (.refl k e)
    fun d call rest respects _ _ _ => by
      have popped : Respects k d { d with backlog := rest } := .of_eq' rfl rfl rfl rfl rfl
      exact respects.trans (popped.trans (respects_sendCall _ call))

theorem respects_request (e : Engine) (call : Call) : Respects k e (e.request call false) := by
  obtain ⟨-, -, he⟩ | ⟨-, he⟩ | ⟨-, -, he⟩ := e.request_forms call
  all_goals rw [he]
  · exact e.respects_sendCall call
  · exact .of_eq' rfl rfl rfl rfl rfl
  · exact e.respects_emit rfl

theorem respects_resubscribe (e : Engine) : Respects k e e.resubscribe := by
  unfold resubscribe
  split
  · exact .refl k e
  simp only [Session.send]
  split
  · next hs =>
    exact e.respects_start hs (fun _ => rfl) (fun _ => rfl) (fun _ _ => rfl) e.subscriptions _
  · next hs =>
    obtain ⟨rfl, -⟩ := Session.start_eq_error hs
    exact .refl k e

/-- As long as the connection lasts, no acknowledged message goes out for the first time under the
identifier. -/
structure Preludes (k : UInt16) (e d : Engine) : Prop where
  epoch_le : e.epoch ≤ d.epoch
  lasts : d.epoch = e.epoch → d.now = e.now ∧
    ∃ out, d.effects = e.effects ++ out ∧ out.any (Effect.isFirst k) = false

theorem Preludes.lost (h : e.epoch < d.epoch) : Preludes k e d :=
  ⟨Nat.le_of_lt h, fun same => absurd same (Nat.ne_of_gt h)⟩

theorem Preludes.of_eq (epoch : d.epoch = e.epoch) (now : d.now = e.now)
    (effects : d.effects = e.effects ++ out) (calm : out.any (Effect.isFirst k) = false) :
    Preludes k e d :=
  ⟨Nat.le_of_eq epoch.symm, fun _ => ⟨now, out, effects, calm⟩⟩

theorem Preludes.of_eq' (epoch : d.epoch = e.epoch) (now : d.now = e.now)
    (effects : d.effects = e.effects) : Preludes k e d :=
  .of_eq epoch now (effects.trans (List.append_nil _).symm) rfl

theorem Preludes.refl (k : UInt16) (e : Engine) : Preludes k e e := .of_eq' rfl rfl rfl

theorem Preludes.trans (h : Preludes k e d) (h' : Preludes k d f) : Preludes k e f := by
  refine ⟨Nat.le_trans h.epoch_le h'.epoch_le, fun same => ?_⟩
  have later := h'.epoch_le
  have earlier := h.epoch_le
  obtain ⟨now, out, effects, calm⟩ := h.lasts (by omega)
  obtain ⟨now', out', effects', calm'⟩ := h'.lasts (by omega)
  refine ⟨now'.trans now, out ++ out', by rw [effects', effects, List.append_assoc], ?_⟩
  rw [List.any_append, calm, calm', Bool.or_false]

theorem preludes_connectionLost (e : Engine) (cause : ConnectionError) :
    Preludes k e (e.connectionLost cause) := by
  obtain he | lost := e.connectionLost_cases cause
  · rw [he]
    exact .refl k e
  · exact .lost lost

theorem preludes_write (e : Engine) {d : Engine} {packet : Packet}
    (other : ∀ call bytes, (Effect.write call packet bytes).isFirst k = false)
    {result : Except TransportError Unit} (wrote : e.write packet = (d, result)) :
    Preludes k e d := by
  obtain ⟨link, bytes, -, -, -, he⟩ | ⟨link, err, -, -, he⟩ | ⟨-, err, -, he⟩ :=
    e.write_cases packet
  all_goals cases wrote.symm.trans he
  · exact .of_eq rfl rfl rfl (by simp [other])
  · exact .refl k _
  · exact .refl k _

theorem preludes_writeOrLose (e : Engine) {packet : Packet}
    (other : ∀ call bytes, (Effect.write call packet bytes).isFirst k = false) :
    Preludes k e (e.writeOrLose packet) := by
  unfold writeOrLose
  split
  · next wrote => exact e.preludes_write other wrote
  · next wrote => exact (e.preludes_write other wrote).trans (preludes_connectionLost _ _)

/-- A command that may be about the identifier: first it may end or repeat what is held under it,
and then it respects the slot. If it `passes` the identifier, it respects the slot throughout. -/
def Treats (k : UInt16) (passes : Prop) (e d : Engine) : Prop :=
  ∃ m, Preludes k e m ∧ Respects k m d ∧ (passes → Respects k e m)

variable {passes : Prop}

theorem Respects.treats (h : Respects k e d) : Treats k passes e d :=
  ⟨e, .refl k e, h, fun _ => .refl k e⟩

theorem Treats.trans (h : Treats k passes e d) (h' : Respects k d f) : Treats k passes e f := by
  obtain ⟨m, preludes, respects, passed⟩ := h
  exact ⟨m, preludes, respects.trans h', passed⟩

theorem Treats.after (preludes : Preludes k e m) (passed : passes → Respects k e m)
    (h : Treats k passes m d) : Treats k passes e d := by
  obtain ⟨m', preludes', respects, passed'⟩ := h
  exact ⟨m', preludes.trans preludes', respects, fun holds =>
    (passed holds).trans (passed' holds)⟩

theorem Treats.mono {less : Prop} (h : Treats k passes e d) (le : less → passes) :
    Treats k less e d := by
  obtain ⟨m, preludes, respects, passed⟩ := h
  exact ⟨m, preludes, respects, passed ∘ le⟩

theorem Treats.respects (h : Treats k passes e d) (passed : passes) : Respects k e d := by
  obtain ⟨m, -, respects, before⟩ := h
  exact (before passed).trans respects

theorem Treats.takes (h : Treats k passes e d) (same : d.epoch = e.epoch) {pre post : List Effect}
    (effects : d.effects = e.effects ++ (pre ++ x :: post)) (first : x.isFirst k = true) :
    d.now = e.now ∧ Begins k d x (d.slot k) ∧ post.filter (Effect.isOf k) = [] := by
  obtain ⟨m, preludes, respects, -⟩ := h
  have later := respects.epoch_le
  have earlier := preludes.epoch_le
  obtain ⟨now, out, before, calm⟩ := preludes.lasts (by omega)
  obtain ⟨now', config, out', after, fate⟩ := respects.lasts (by omega)
  have written : out ++ out' = pre ++ x :: post := by
    rw [after, before, List.append_assoc] at effects
    exact List.append_cancel_left effects
  -- What was written before the slot was free holds no first packet, so this one came later.
  have unwritten : x ∉ out := fun hm => by
    have none := List.any_eq_false.1 calm x hm
    exact none first
  obtain ⟨mid, rfl⟩ : ∃ mid, out' = mid ++ x :: post := by
    obtain ⟨mid, -, rfl⟩ | ⟨mid, rfl, split⟩ := List.append_eq_append_iff.1 written
    · exact ⟨mid, rfl⟩
    · cases mid with
      | nil => exact ⟨[], split.symm⟩
      | cons y rest =>
        cases split
        exact absurd (List.mem_append_right _ List.mem_cons_self) unwritten
  have part := Effect.isOf_of_isFirst first
  cases fate with
  | alone calm' => simp [part] at calm'
  | @taken x' _ wrote begins =>
    rw [List.filter_append, List.filter_cons_of_pos part, List.append_eq_singleton_iff] at wrote
    obtain ⟨-, one⟩ | ⟨-, none⟩ := wrote
    · obtain ⟨rfl, nothing⟩ := List.cons.inj one
      exact ⟨now'.trans now, begins.congr now'.symm config.symm, nothing⟩
    · cases none

theorem respects_acknowledged (e : Engine) (ne : j ≠ k) :
    Respects k e ((e.cancelTimer (.ack j)).erasePending j) := by
  have others : Timer.ack k ≠ .ack j := by simpa using Ne.symm ne
  exact .of_eq' rfl rfl rfl rfl ((slot_erasePending _ ne).trans (e.slot_cancelTimer others))

theorem treats_published (e : Engine) (j : UInt16) (ack : PublishAck) :
    Treats k (j ≠ k) e (e.published j ack) := by
  refine ⟨(e.cancelTimer (.ack j)).erasePending j, .of_eq' rfl rfl rfl, ?_,
    e.respects_acknowledged⟩
  unfold published
  refine Respects.trans ?_ (respects_drainBacklog _)
  split
  · exact respects_emit _ rfl
  · exact respects_failPending _ _ _
  · exact .refl k _

theorem treats_subscribed (e : Engine) (p : SubAck) :
    Treats k (p.packetId ≠ k) e (e.subscribed p) := by
  refine ⟨(e.cancelTimer (.ack p.packetId)).erasePending p.packetId, .of_eq' rfl rfl rfl, ?_,
    e.respects_acknowledged⟩
  unfold subscribed
  refine Respects.trans ?_ (respects_drainBacklog _)
  split
  · exact .of_eq rfl rfl rfl rfl rfl rfl
  · exact .of_eq' rfl rfl rfl rfl rfl
  · exact respects_failPending _ _ _
  · exact .refl k _

theorem treats_unsubscribed (e : Engine) (p : UnsubAck) :
    Treats k (p.packetId ≠ k) e (e.unsubscribed p) := by
  refine ⟨(e.cancelTimer (.ack p.packetId)).erasePending p.packetId, .of_eq' rfl rfl rfl, ?_,
    e.respects_acknowledged⟩
  unfold unsubscribed
  refine Respects.trans ?_ (respects_drainBacklog _)
  split
  · exact respects_emit _ rfl
  · exact respects_failPending _ _ _
  · exact .refl k _

theorem respects_dispatch (e : Engine) (p : Publish) : Respects k e (e.dispatch p) := by
  rw [dispatch_eq]
  exact .of_eq rfl rfl rfl rfl (Effect.filter_isOf_of_silent (by simp [Effect.isWrite]) k) rfl

theorem respects_replied (e : Engine) {reply : Option Packet}
    (other : ∀ packet, reply = some packet → packet.transaction? ≠ some k) :
    Respects k e (e.replied reply) := by
  cases reply with
  | none => exact .refl k e
  | some packet =>
    rw [replied]
    split
    · exact .refl k e
    · exact e.respects_writeOrLose (other packet rfl)

theorem treats_expire (e : Engine) (policy : TimeoutPolicy) :
    Treats k (j ≠ k) e ((e.forget j).expire j policy) := by
  let gone := (e.forget j).erasePending j
  have told : ∃ d : Engine, Respects k gone d ∧ (e.forget j).expire j .drop = d.drainBacklog ∧
      (e.forget j).expire j .reset = d.connectionLost (.transactionTimeout j) := by
    unfold expire
    dsimp only
    split
    · exact ⟨_, gone.respects_emit rfl, rfl, rfl⟩
    · refine ⟨_, ?_, rfl, rfl⟩
      exact .of_eq rfl rfl rfl rfl rfl rfl
    · exact ⟨_, gone.respects_failPending _ _, rfl, rfl⟩
    · exact ⟨gone, .refl k _, rfl, rfl⟩
  obtain ⟨d, respects, dropped, reset⟩ := told
  refine ⟨gone, .of_eq' rfl rfl rfl, ?_, fun ne => ?_⟩
  · cases policy with
    | drop => exact dropped ▸ respects.trans (respects_drainBacklog _)
    | reset => exact reset ▸ respects.trans (respects_connectionLost _ _)
  · exact .of_eq' rfl rfl rfl rfl ((slot_erasePending _ ne).trans (e.slot_forget ne))

theorem treats_ackTimedOut (e : Engine) (sound : e.session.IsSound) (j : UInt16) :
    Treats k (j ≠ k) e (e.ackTimedOut j) := by
  unfold ackTimedOut
  split
  · refine ⟨(e.erasePending j).forget j, .of_eq' rfl rfl rfl, respects_drainBacklog _, fun ne => ?_⟩
    exact .of_eq' rfl rfl rfl rfl ((slot_forget _ ne).trans (e.slot_erasePending ne))
  split
  · exact (Respects.refl k e).treats
  next config _ =>
  obtain ⟨-, he⟩ | ⟨t, ht, he | ⟨-, he⟩⟩ :=
    Session.retransmit_cases e.session e.now j config.maxRetries
  all_goals rw [he]
  · exact (Respects.refl k e).treats
  · exact e.treats_expire _
  · let again : Engine := e.withSession { e.session with
      outgoing := e.session.outgoing.insert j
        { t with retries := t.retries + 1, lastSent := e.now } }
    have taken : j ≠ k → Respects k e again := fun ne => by
      refine .of_eq' rfl rfl rfl rfl ?_
      simp [slot, again, withSession, Std.TreeMap.getElem?_insert, ne]
    have part := (sound.fits ht).transaction?_resend
    have other : j ≠ k → t.resend.transaction? ≠ some k := fun ne same =>
      ne (Option.some.inj (part.symm.trans same))
    dsimp only
    split
    · next wrote =>
      have sent := again.preludes_write ((sound.fits ht).not_isFirst_resend k) wrote
      refine ⟨_, ?_, .refl k _, fun ne => ?_⟩
      · exact (Preludes.of_eq' rfl rfl rfl : Preludes k e again).trans
          (sent.trans (.of_eq' rfl rfl rfl))
      · have others : Timer.ack k ≠ .ack j := by simpa using Ne.symm ne
        exact (taken ne).trans ((again.respects_write (other ne) wrote).trans
          (respects_schedule _ others _))
    · next wrote =>
      have sent := again.preludes_write ((sound.fits ht).not_isFirst_resend k) wrote
      refine ⟨_, ?_, .refl k _, fun ne => ?_⟩
      · exact (Preludes.of_eq' rfl rfl rfl : Preludes k e again).trans
          (sent.trans (preludes_connectionLost _ _))
      · exact (taken ne).trans ((again.respects_write (other ne) wrote).trans
          (respects_connectionLost _ _))

theorem respects_keepAliveDue (e : Engine) : Respects k e e.keepAliveDue := by
  have asked : ∀ {s : Session} {result : Except SessionError Packet},
      e.session.send e.now .pingReq = (s, result) →
        Respects k e (e.withSession s) ∧ ∀ packet, result = .ok packet → packet = .pingReq := by
    intro s result he
    simp only [Session.send, Session.sendPing] at he
    split at he
    · split at he <;> cases he
      · exact ⟨.refl k e, by simp⟩
      · exact ⟨.of_eq' rfl rfl rfl rfl rfl, by simp⟩
    · cases he
      exact ⟨.refl k e, by simp⟩
  unfold keepAliveDue
  dsimp only
  split
  · exact e.respects_schedule (by simp) _
  split
  · next he => exact (asked he).1.trans (respects_connectionLost _ _)
  · next he => exact (asked he).1.trans (respects_connectionLost _ _)
  · next s packet he =>
    obtain ⟨same, ping⟩ := asked he
    cases ping packet rfl
    have other : Packet.pingReq.transaction? ≠ some k := by simp [Packet.transaction?]
    split
    · next wrote =>
      exact same.trans ((respects_write _ other wrote).trans (respects_connectionLost _ _))
    · next wrote =>
      exact same.trans ((respects_write _ other wrote).trans
        ((respects_schedule _ (by simp) _).trans (respects_schedule _ (by simp) _)))

theorem respects_startAttempt (e : Engine) : Respects k e e.startAttempt := by
  unfold startAttempt
  split
  · exact .refl k e
  split
  · exact .refl k e
  · exact .lost (Nat.lt_succ_self e.epoch)

theorem treats_timerFired (e : Engine) (sound : e.session.IsSound) (timer : Timer) (id : Nat) :
    Treats k (¬ (timer = .ack k ∧ (e.timers.get? timer).any (·.id == id) = true)) e
      (e.timerFired timer id) := by
  unfold timerFired
  split
  · next fires =>
    have disarmed : ¬ (timer = .ack k ∧ (e.timers.get? timer).any (·.id == id) = true) →
        Respects k e (e.cancelTimer timer) := fun passes =>
      e.respects_cancelTimer fun same => passes ⟨same.symm, fires⟩
    refine Treats.after (m := e.cancelTimer timer) (.of_eq' rfl rfl rfl) disarmed ?_
    dsimp only
    cases timer with
    | connect | pingResp => exact (respects_connectionLost _ _).treats
    | ack j =>
      exact (treats_ackTimedOut (e.cancelTimer (.ack j)) sound j).mono fun passes same =>
        passes ⟨same ▸ rfl, fires⟩
    | keepAlive => exact (respects_keepAliveDue _).treats
    | reconnect => exact (respects_startAttempt _).treats
  · exact (Respects.refl k e).treats

theorem preludes_replayAll (e : Engine) (ackTimeout : Duration) (packets : List Packet)
    (other : ∀ packet ∈ packets, ∀ call bytes,
      (Effect.write call packet bytes).isFirst k = false) :
    Preludes k e (e.replayAll ackTimeout packets).1 := by
  induction packets generalizing e with
  | nil => exact .refl k e
  | cons packet rest ih =>
    rw [replayAll]
    have first := other packet List.mem_cons_self
    split
    · next d wrote =>
      have armed : Preludes k d (d.schedule (.ack (packetIdOf packet)) ackTimeout) :=
        .of_eq' rfl rfl rfl
      exact (e.preludes_write first wrote).trans (armed.trans (ih _ fun packet hm =>
        other packet (List.mem_cons_of_mem _ hm)))
    · next wrote => exact (e.preludes_write first wrote).trans (preludes_connectionLost _ _)

theorem treats_resume (e : Engine) (sound : e.session.IsSound) (ackTimeout : Duration) :
    Treats k False e (e.resume ackTimeout) := by
  let taken := e.withSession (e.session.replay e.now).1
  have other : ∀ packet ∈ (e.session.replay e.now).2, ∀ call bytes,
      (Effect.write call packet bytes).isFirst k = false := by
    intro packet hm
    obtain ⟨j, t, ht, rfl⟩ := Session.mem_replay.1 hm
    exact (sound.fits ht).not_isFirst_resend k
  have took : Preludes k e taken := .of_eq' rfl rfl rfl
  have replayed := taken.preludes_replayAll ackTimeout _ other
  rcases he : taken.replayAll ackTimeout (e.session.replay e.now).2 with ⟨d, done⟩
  rw [he] at replayed
  cases done with
  | true =>
    rw [resume_of_replayed he]
    exact ⟨d, took.trans replayed, d.respects_resubscribe.trans (respects_drainBacklog _),
      False.elim⟩
  | false =>
    rw [resume_of_lost he]
    exact ⟨d, took.trans replayed, .refl k d, False.elim⟩

theorem treats_connected (e : Engine) (sound : e.session.IsSound) (p : ConnAck) :
    Treats k False e (e.connected p) := by
  cases configured : e.config with
  | none =>
    have configured' : (e.cancelTimer .connect).config = none := configured
    simp only [Engine.connected, configured']
    exact (e.respects_cancelTimer (by simp)).treats
  | some config =>
    have configured' : (e.cancelTimer .connect).config = some config := configured
    let d := e.accepted config p
    have accepted : Preludes k e d ∧ d.session.IsSound := by
      simp only [d, Engine.accepted]
      split
      · exact ⟨.of_eq' rfl rfl rfl, sound.congr rfl rfl⟩
      · exact ⟨.of_eq' rfl rfl rfl, sound.congr rfl rfl⟩
    let stableAfter :=
      if (agreedKeepAlive config p).isZero then config.ackTimeout else agreedKeepAlive config p
    have greeted : ∀ call, Respects k d (({ d with connectCall := none }.supervise
        config.reconnect stableAfter).succeed call (.connAck p)) := fun call =>
      .of_eq rfl rfl rfl rfl rfl rfl
    have resumed : Treats k False d
        ((d.supervise none stableAfter).resume config.ackTimeout) :=
      .after (m := d.supervise none stableAfter) (.of_eq' rfl rfl rfl) False.elim
        (treats_resume (d.supervise none stableAfter) accepted.2 _)
    refine .after accepted.1 False.elim ?_
    simp only [Engine.connected, configured']
    split
    · exact (greeted _).treats
    · exact resumed

theorem respects_networkDown (e : Engine) (err : TransportError) :
    Respects k e (e.networkDown err) := by
  unfold networkDown
  split
  · exact (e.respects_sendDisconnect _).trans (respects_connectionLost _ _)
  · exact (e.respects_sendDisconnect _).trans (respects_connectionLost _ _)
  · exact e.respects_connectionLost _

theorem respects_opened (e : Engine) (result : Except TransportError (Option Nat)) :
    Respects k e (e.opened result) := by
  have ended : Respects k e { e with opening := false } := .of_eq' rfl rfl rfl rfl rfl
  unfold opened
  dsimp only
  split
  · exact ended.trans (respects_connectionLost _ _)
  · exact ended
  · next _ _ room config _ =>
    have linked : Respects k e { e with
        opening := false
        link := some { maxOutgoing := config.maxOutgoing, room } } := .of_eq' rfl rfl rfl rfl rfl
    have asked : e.session.send e.now (.connect config.connectPacket)
        = if e.session.connection = .connecting
          then (e.session, .ok (.connect config.connectPacket))
          else (e.session, .error (.invalidState e.session.connection)) := rfl
    rw [asked]
    split_ifs
    · exact linked.trans (respects_writeOrLose _ (by simp [Packet.transaction?]))
    · exact linked.trans (respects_connectionLost _ _)

theorem respects_disconnect (e : Engine) (reason : DisconnectReason) :
    Respects k e (e.disconnect reason) := by
  obtain ⟨said, lastOutgoing, -, -, -, he⟩ := e.disconnect_eq reason
  rw [he]
  exact .lost (Nat.lt_succ_self e.epoch)

theorem respects_connect (e : Engine) (id : CallId) (config : Config) :
    Respects k e (e.connect id config) := by
  unfold connect
  split
  · exact e.respects_emit rfl
  split
  · exact e.respects_emit rfl
  next gone =>
  rw [not_not] at gone
  refine .lost ?_
  simp [startAttempt, withSession, Session.connecting, gone, schedule, emit]

theorem treats_cancelCall (e : Engine) (id : CallId) :
    Treats k (∀ p, e.pending[k]? = some p → p.call? ≠ some id) e (e.cancelCall id) := by
  unfold cancelCall
  split
  · next j p found =>
    refine ⟨((e.erasePending j).forget j).cancelTimer (.ack j), .of_eq' rfl rfl rfl,
      respects_drainBacklog _, fun passes => ?_⟩
    have named : p.call? = some id := by simpa using List.find?_some found
    have held : e.pending[j]? = some p :=
      Std.TreeMap.mem_toList_iff_getElem?_eq_some.1 (List.mem_of_find?_eq_some found)
    have ne : j ≠ k := fun same => passes p (same ▸ held) named
    have others : Timer.ack k ≠ .ack j := by simpa using Ne.symm ne
    exact .of_eq' rfl rfl rfl rfl ((slot_cancelTimer _ others).trans
      ((slot_forget _ ne).trans (e.slot_erasePending ne)))
  · exact Respects.treats (.of_eq' rfl rfl rfl rfl rfl)

end

def Passes (k : UInt16) (e : Engine) : Command → Prop
  | .incoming n packet => n = e.epoch → e.session.connection = .connected ∧
    (e.session.receive e.now packet).1.outgoing[k]? = e.session.outgoing[k]? ∧
    ¬ e.session.Releases k packet
  | .cancel id => ∀ p, e.pending[k]? = some p → p.call? ≠ some id
  | .timer timer id => ¬ (timer = .ack k ∧ (e.timers.get? timer).any (·.id == id) = true)
  | _ => True

section

variable {w : World} {owed : CallId → Nat} {k : UInt16} {e : Engine}

theorem SettledBut.preludes_release (h : Settled w owed e) {packet : Packet}
    (releases : e.session.Releases k packet) : Preludes k e (e.incoming packet) := by
  obtain ⟨s, he⟩ := h.incoming_release releases
  have took : Preludes k e (e.withSession s) := .of_eq' rfl rfl rfl
  rw [he, replied]
  split
  · exact took
  · exact took.trans (preludes_writeOrLose _ fun _ _ => rfl)

theorem SettledBut.treats_incoming (h : Settled w owed e) (packet : Packet) :
    Treats k (e.session.connection = .connected ∧
      (e.session.receive e.now packet).1.outgoing[k]? = e.session.outgoing[k]? ∧
      ¬ e.session.Releases k packet) e (e.incoming packet) := by
  let arrived : Session := { e.session with lastIncoming := e.now }
  by_cases releases : e.session.Releases k packet
  · exact ⟨_, h.preludes_release releases, .refl k _, fun passes => absurd releases passes.2.2⟩
  by_cases accepting :
      e.session.connection = .connecting ∧ ∃ p, packet = .connAck p ∧ p.code = .success
  · obtain ⟨connecting, p, rfl, success⟩ := accepting
    rw [h.incoming_connAck connecting success]
    refine .after (m := e.welcomed) (.of_eq' rfl rfl rfl) (fun passes => ?_)
      ((e.welcomed.treats_connected (h.ledger.sound.congr rfl rfl) p).mono fun passes => ?_)
    all_goals cases connecting.symm.trans passes.1
  obtain ⟨err, he, fails⟩ | ⟨s, events, reply, hr, he, told, accepted⟩ := h.incoming_cases packet
  · rw [fails]
    have heard : Respects k e (e.withSession arrived) := .of_eq' rfl rfl rfl rfl rfl
    exact (heard.trans ((respects_sendDisconnect _ _).trans (respects_connectionLost _ _))).treats
  · rw [told, he]
    refine Treats.trans ?_ (respects_replied _ fun packet hp part =>
      releases (Session.releases_of_receive (hp ▸ he) part))
    have heard : ∀ s', Preludes k e (e.withSession s') := fun _ => .of_eq' rfl rfl rfl
    -- If the slot is passed, the session holds in it what it held.
    have passed : (e.session.connection = .connected ∧
        s.outgoing[k]? = e.session.outgoing[k]? ∧ ¬ e.session.Releases k packet) →
        Respects k e (e.withSession s) := fun passes =>
      .of_eq' rfl rfl rfl rfl (congrArg (Slot.mk · _ _) passes.2.1)
    refine .after (m := e.withSession s) (heard s) passed ?_
    cases hr with
    | noted | release => exact (Respects.refl k _).treats
    | message p received' => exact (respects_dispatch _ p).treats
    | @ended j t event ht ends =>
      have other : (e.session.connection = .connected ∧
          (arrived.forget j).outgoing[k]? = e.session.outgoing[k]? ∧
          ¬ e.session.Releases k packet) → j ≠ k := by
        rintro ⟨-, same, -⟩ rfl
        have gone : (arrived.forget j).outgoing[j]? = none := Std.TreeMap.getElem?_erase_self
        cases gone.symm.trans (same.trans ht)
      cases event with
      | published i ack =>
        obtain ⟨rfl, -⟩ := ends
        exact (treats_published _ i ack).mono other
      | subscribed p =>
        obtain ⟨rfl, -⟩ := ends
        exact (treats_subscribed _ p).mono other
      | unsubscribed p =>
        obtain ⟨rfl, -⟩ := ends
        exact (treats_unsubscribed _ p).mono other
      | _ => exact absurd ends id
    | accepted p hc => exact absurd ⟨hc, p, accepted p rfl⟩ accepting
    | rejected p hc => exact (respects_connectionLost _ _).treats
    | pong => exact (respects_cancelTimer _ (by simp)).treats
    | closed p => exact (respects_connectionLost _ _).treats

theorem SettledBut.treats (h : Settled w owed e) (k : UInt16) (c : Command) :
    Treats k (e.Passes k c) e (e.handle c) := by
  cases c with
  | connect id config => exact (e.respects_connect id config).treats
  | call call => exact (e.respects_request call).treats
  | disconnect id reason =>
    exact ((e.respects_disconnect reason).trans (respects_emit _ rfl)).treats
  | cancel id => exact e.treats_cancelCall id
  | opened n result =>
    rw [Engine.handle]
    split
    · exact (e.respects_opened result).treats
    · exact (Respects.refl k e).treats
  | incoming n packet =>
    rw [Engine.handle]
    split
    · next same => exact (h.treats_incoming packet).mono fun passes => passes same
    · exact (Respects.refl k e).treats
  | networkDown n err =>
    rw [Engine.handle]
    split
    · exact (e.respects_networkDown err).treats
    · exact (Respects.refl k e).treats
  | timer timer id => exact e.treats_timerFired h.ledger.sound timer id

end

end Engine

end MqttClient
