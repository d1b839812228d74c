import MqttClient.Proofs.Engine.Account
import MqttClient.Proofs.Session.Steps

/-! What holds of an engine between two commands. The session, the calls that wait and the timers
agree with each other, and each state of the connection has something that will wake the engine.
Within a command all this holds but for some timers, and just before the connection is given up only
the `Ledger` does. -/

namespace MqttClient

def Pending.Awaits : Pending → Phase → Prop
  | .publish _, phase => phase = .sent ∨ phase = .released
  | .subscribe _ _, phase => phase = .subscribing
  | .unsubscribe _, phase => phase = .unsubscribing
  | .resubscribe _, phase => phase = .subscribing

namespace Engine

/-- What waits under an identifier agrees with the transaction of that identifier. -/
def Agrees : Option Pending → Option Transaction → Prop
  | some p, some t => p.Awaits t.phase
  | none, none => True
  | _, _ => False

theorem Agrees.eq_none_iff {p : Option Pending} {t : Option Transaction} (h : Agrees p t) :
    p = none ↔ t = none := by
  cases p <;> cases t <;> simp_all [Agrees]

def Wants (e : Engine) : Timer → Prop
  | .connect => e.session.connection = .connecting
  | .ack k => e.session.connection = .connected ∧ e.session.outgoing[k]? ≠ none
  | .keepAlive => e.session.connection = .connected ∧ e.keepAlive.isZero = false
  | .pingResp => e.session.connection = .connected ∧ e.session.awaitPingResp = true
  | .reconnect => e.session.connection = .disconnected ∧ e.supervisor.isSome

/-- What the world has done so far: the epochs whose socket came, and the callers that left without
a word. -/
structure World where
  opened : Nat → Prop
  abandoned : Std.TreeSet CallId

structure Ledger (w : World) (owed : CallId → Nat) (e : Engine) : Prop where
  sound : e.session.IsSound
  events_eq : e.session.events = []
  agrees : ∀ k : UInt16, Agrees e.pending[k]? e.session.outgoing[k]?
  account_eq : e.account = owed
  attempt_le : ∀ {epoch : Nat} {host : String} {port : UInt16},
    .attempt epoch host port ∈ e.effects → epoch ≤ e.epoch
  opened_le : ∀ {epoch : Nat}, w.opened epoch → epoch ≤ e.epoch
  supervisor_eq : e.connectCall.isSome → e.supervisor = none
  config_isSome : e.supervisor.isSome → e.config.isSome
  /-- No acknowledgement was taken for one of another kind. -/
  outcome_ne : ∀ {call : CallId} {outcome : Except ClientError Reply},
    .answer call outcome ∈ e.effects → outcome ≠ .error (.session .wrongPacket)
  abandoned_eq : e.abandoned = w.abandoned

/-- What each state of the connection comes with. -/
structure Posture (w : World) (e : Engine) : Prop where
  connection_ne : e.session.connection ≠ .disconnecting
  link_eq_none : e.session.connection = .disconnected → e.link = none
  link_isSome : e.session.connection = .connected → e.link.isSome
  /-- A socket came if it was asked for in this epoch and did come. -/
  link_isSome_of_opened :
    e.session.connection = .connecting → w.opened e.epoch → e.link.isSome
  opening_iff : e.opening ↔ e.session.connection = .connecting ∧ e.link = none
  connectCall_eq : e.session.connection ≠ .connecting → e.connectCall = none
  awaitPingResp_eq : e.session.connection ≠ .connected → e.session.awaitPingResp = false
  config_isSome : e.session.connection ≠ .disconnected → e.config.isSome
  /-- The first connection has nothing to take up. -/
  fresh : e.connectCall.isSome → ∀ k : UInt16, e.session.outgoing[k]? = none
  idle : e.session.connection = .disconnected → e.supervisor = none →
    (∀ k : UInt16, e.session.outgoing[k]? = none) ∧ e.backlog = []

/-- The engine is in order, but for the timers that are `due` to be set right. -/
structure SettledBut (due : Timer → Prop) (w : World) (owed : CallId → Nat)
    (e : Engine) : Prop where
  ledger : Ledger w owed e
  posture : Posture w e
  timers : ∀ t, ¬ due t → ((e.timers.get? t).isSome ↔ e.Wants t)

abbrev Settled (w : World) (owed : CallId → Nat) (e : Engine) : Prop :=
  SettledBut (fun _ => False) w owed e

section

variable {due : Timer → Prop} {w : World} {owed : CallId → Nat} {e : Engine}

theorem wants_of_disconnected (hc : e.session.connection = .disconnected) (t : Timer) :
    e.Wants t ↔ t = .reconnect ∧ e.supervisor.isSome := by
  cases t <;> simp [Wants, hc]

theorem wants_of_connecting (hc : e.session.connection = .connecting) (t : Timer) :
    e.Wants t ↔ t = .connect := by
  cases t <;> simp [Wants, hc]

theorem SettledBut.of_disconnected (h : Ledger w owed e)
    (hc : e.session.connection = .disconnected) (hl : e.link = none) (ho : e.opening = false)
    (hcall : e.connectCall = none) (ha : e.session.awaitPingResp = false)
    (idle : e.supervisor = none → (∀ k : UInt16, e.session.outgoing[k]? = none) ∧ e.backlog = [])
    (ht : ∀ t, (e.timers.get? t).isSome ↔ t = .reconnect ∧ e.supervisor.isSome) :
    SettledBut due w owed e := by
  refine ⟨h, ?_, fun t _ => (ht t).trans (wants_of_disconnected hc t).symm⟩
  constructor <;> simp_all

theorem SettledBut.of_connected (h : Ledger w owed e)
    (hc : e.session.connection = .connected) (hl : e.link.isSome) (ho : e.opening = false)
    (hcall : e.connectCall = none) (hconfig : e.config.isSome)
    (ht : ∀ t, ¬ due t → ((e.timers.get? t).isSome ↔ e.Wants t)) :
    SettledBut due w owed e := by
  refine ⟨h, ?_, ht⟩
  constructor <;> simp_all

theorem Ledger.emit (h : Ledger w owed e) {x : Effect} (ha : ∀ c, x.answers c = false)
    (hx : x.isAttempt = false) : Ledger w owed (e.emit x) :=
  { h with
    account_eq := by
      rw [← h.account_eq]
      funext c
      simp [account_emit, ha]
    attempt_le := by
      simp only [Engine.emit, List.mem_append, List.mem_singleton]
      rintro epoch host port (hm | rfl)
      · exact h.attempt_le hm
      · cases hx
    outcome_ne := by
      simp only [Engine.emit, List.mem_append, List.mem_singleton]
      rintro call outcome (hm | rfl)
      · exact h.outcome_ne hm
      · simpa [Effect.answers] using ha call }

theorem Ledger.answer (h : Ledger w owed e) (call : CallId)
    {outcome : Except ClientError Reply} (ho : outcome ≠ .error (.session .wrongPacket)) :
    Ledger w (take owed (some call)) (e.emit (.answer call outcome)) :=
  { h with
    account_eq := by rw [account_emit_answer, h.account_eq]
    attempt_le := by
      simp only [Engine.emit, List.mem_append, List.mem_singleton]
      rintro epoch host port (hm | hm)
      · exact h.attempt_le hm
      · cases hm
    outcome_ne := by
      simp only [Engine.emit, List.mem_append, List.mem_singleton]
      rintro call' outcome' (hm | hm)
      · exact h.outcome_ne hm
      · cases hm
        exact ho }

theorem Ledger.answerConnect (h : Ledger w owed e) {call : CallId}
    (hc : e.connectCall = some call) {outcome : Except ClientError Reply}
    (ho : outcome ≠ .error (.session .wrongPacket)) :
    Ledger w owed ({ e with connectCall := none }.emit (.answer call outcome)) := by
  have waiting : Ledger w ({ e with connectCall := none } : Engine).account
      { e with connectCall := none } := { h with account_eq := rfl, supervisor_eq := nofun }
  have answered := waiting.answer call ho
  rwa [account_connectCall hc, h.account_eq] at answered

theorem Ledger.abort (h : Ledger w owed e) {err : ClientError} (he : err ≠ .session .wrongPacket) :
    Ledger w owed (e.failAll err).cleanSession where
  sound := Session.isSound_of_empty fun _ => Std.TreeMap.getElem?_emptyc
  events_eq := by
    rw [failAll_eq]
    exact h.events_eq
  agrees k := by
    have pending : (e.failAll err).cleanSession.pending[k]? = none := Std.TreeMap.getElem?_emptyc
    have outgoing : (e.failAll err).cleanSession.session.outgoing[k]? = none :=
      Std.TreeMap.getElem?_emptyc
    rw [pending, outgoing]
    trivial
  account_eq := (account_failAll e err).trans h.account_eq
  attempt_le := by
    rw [failAll_eq]
    simp only [cleanSession, withSession, List.mem_append, List.mem_map]
    rintro epoch host port ((hm | ⟨c, -, hm⟩) | ⟨c, -, hm⟩)
    · exact h.attempt_le hm
    · cases hm
    · cases hm
  opened_le := by
    rw [failAll_eq]
    exact h.opened_le
  supervisor_eq := by
    rw [failAll_eq]
    exact h.supervisor_eq
  config_isSome := by
    rw [failAll_eq]
    exact h.config_isSome
  outcome_ne := by
    have failed : (.error err : Except ClientError Reply) ≠ .error (.session .wrongPacket) :=
      fun e' => he (Except.error.inj e')
    rw [failAll_eq]
    simp only [cleanSession, withSession, List.mem_append, List.mem_map]
    rintro call outcome ((hm | ⟨c, -, hm⟩) | ⟨c, -, hm⟩)
    · exact h.outcome_ne hm
    · cases hm
      exact failed
    · cases hm
      exact failed
  abandoned_eq := by
    rw [failAll_eq]
    exact h.abandoned_eq

theorem Ledger.exists_pending (h : Ledger w owed e) {k : UInt16} {t : Transaction}
    (ht : e.session.outgoing[k]? = some t) : ∃ p, e.pending[k]? = some p ∧ p.Awaits t.phase := by
  have agrees := h.agrees k
  rw [ht] at agrees
  cases hp : e.pending[k]? with
  | none => simp [hp, Agrees] at agrees
  | some p => exact ⟨p, rfl, by rwa [hp] at agrees⟩

theorem teardown_eq (e : Engine) :
    ∃ effects, (effects = e.effects ∨ effects = e.effects ++ [.close]) ∧
      e.teardown = { e with
        effects
        epoch := e.epoch + 1
        opening := false
        link := none
        timers := {}
        session := e.session.disconnected } := by
  unfold teardown
  split
  · exact ⟨_, .inr rfl, rfl⟩
  · exact ⟨_, .inl rfl, rfl⟩

theorem Ledger.teardown (h : Ledger w owed e) : Ledger w owed e.teardown := by
  have closed : Ledger w owed (e.emit .close) := h.emit (fun _ => rfl) rfl
  have raise : ∀ {d : Engine}, Ledger w owed d → Ledger w owed { d with
      epoch := d.epoch + 1
      opening := false
      link := none
      timers := {}
      session := d.session.disconnected } := fun hd =>
    { hd with
      sound := hd.sound.congr rfl rfl
      attempt_le := fun hm => Nat.le_succ_of_le (hd.attempt_le hm)
      opened_le := fun ho => Nat.le_succ_of_le (hd.opened_le ho) }
  unfold Engine.teardown
  split
  · exact raise closed
  · exact raise h

theorem get?_empty (t : Timer) : Timers.get? {} t = none := by
  cases t <;> simp [Timers.get?]

theorem Ledger.settled_abort (h : Ledger w owed e) (hd : e.session.connection = .disconnected)
    (hl : e.link = none) (ho : e.opening = false) (hc : e.connectCall = none)
    (hs : e.supervisor = none) (ht : e.timers = {}) (err : ClientError)
    (he : err ≠ .session .wrongPacket) (subscriptions : SubscriptionTable HandlerId) :
    Settled w owed { (e.failAll err).cleanSession with subscriptions } := by
  have ledger := h.abort he
  rw [failAll_eq] at ledger ⊢
  refine .of_disconnected { ledger with } hd hl ho hc rfl (fun _ => ⟨fun k => ?_, rfl⟩) fun t => ?_
  · exact Std.TreeMap.getElem?_emptyc
  · simp [cleanSession, withSession, ht, get?_empty, hs]

theorem Ledger.settled_connectionLost (h : Ledger w owed e)
    (hl : e.session.connection = .disconnected → e.link.isSome) (cause : ConnectionError) :
    Settled w owed (e.connectionLost cause) := by
  have torn := h.teardown
  obtain ⟨effects, -, he⟩ := e.teardown_eq
  unfold Engine.connectionLost
  rw [if_neg fun ⟨hd, hn⟩ => by simp [Option.isNone_iff_eq_none.1 hn] at hl; exact hl hd]
  simp only
  rw [he] at torn ⊢
  dsimp only
  split
  · next call _ hc =>
    have told : (.error (.ofConnection cause) : Except ClientError Reply)
        ≠ .error (.session .wrongPacket) := by
      cases cause <;> simp [ClientError.ofConnection]
    have unplanned := h.supervisor_eq (by simp [hc])
    exact (torn.answerConnect hc told).settled_abort rfl rfl rfl rfl unplanned rfl .notConnected
      (by simp) _
  · next backoff hc hs =>
    refine .of_disconnected
      { torn with
        supervisor_eq := by simp [schedule, hc]
        config_isSome := fun _ => h.config_isSome (by simp [hs]) }
      rfl rfl rfl hc rfl nofun fun t => ?_
    by_cases ht : t = .reconnect
    · subst ht
      simp [schedule, Timers.get?_set_self]
    · simp [schedule, Timers.get?_set_of_ne _ _ ht, get?_empty, ht]
  · next hc hs => exact torn.settled_abort rfl rfl rfl hc hs rfl (.connectionLost cause) (by simp) _

theorem SettledBut.connectionLost (h : Settled w owed e) (cause : ConnectionError) :
    Settled w owed (e.connectionLost cause) := by
  by_cases hd : e.session.connection = .disconnected ∧ e.link.isNone
  · rwa [Engine.connectionLost, if_pos hd]
  · refine h.ledger.settled_connectionLost (fun hd' => ?_) cause
    simpa [hd', Option.isSome_iff_ne_none] using hd

theorem SettledBut.emit (h : SettledBut due w owed e) {x : Effect}
    (ha : ∀ c, x.answers c = false) (hx : x.isAttempt = false) :
    SettledBut due w owed (e.emit x) :=
  ⟨h.ledger.emit ha hx, { h.posture with fresh := h.posture.fresh }, h.timers⟩

theorem SettledBut.succeed (h : SettledBut due w owed e) (call : CallId) (r : Reply) :
    SettledBut due w (take owed (some call)) (e.succeed call r) :=
  ⟨h.ledger.answer call (by simp), { h.posture with fresh := h.posture.fresh }, h.timers⟩

theorem SettledBut.fail (h : SettledBut due w owed e) (call : CallId) {err : ClientError}
    (he : err ≠ .session .wrongPacket) :
    SettledBut due w (take owed (some call)) (e.fail call err) :=
  ⟨h.ledger.answer call fun e' => he (Except.error.inj e'),
    { h.posture with fresh := h.posture.fresh }, h.timers⟩

theorem SettledBut.schedule {due' : Timer → Prop} (h : SettledBut due w owed e) {t : Timer}
    (hw : e.Wants t) (hd : ∀ u, due u → u = t ∨ due' u) (delay : Duration) :
    SettledBut due' w owed (e.schedule t delay) := by
  refine ⟨{ h.ledger with events_eq := h.ledger.events_eq },
    { h.posture with fresh := h.posture.fresh }, fun u hu => ?_⟩
  by_cases e' : u = t
  · subst e'
    have armed : ((e.schedule u delay).timers.get? u).isSome := by
      simp [Engine.schedule, Timers.get?_set_self]
    exact ⟨fun _ => hw, fun _ => armed⟩
  · have same : (e.schedule t delay).timers.get? u = e.timers.get? u :=
      Timers.get?_set_of_ne _ _ e'
    rw [same]
    exact h.timers u fun du => (hd u du).elim e' hu

theorem SettledBut.cancelTimer {due' : Timer → Prop} (h : SettledBut due w owed e) {t : Timer}
    (hw : ¬ e.Wants t ∨ due' t) (hd : ∀ u, due u → u = t ∨ due' u) :
    SettledBut due' w owed (e.cancelTimer t) := by
  refine ⟨{ h.ledger with events_eq := h.ledger.events_eq },
    { h.posture with fresh := h.posture.fresh }, fun u hu => ?_⟩
  by_cases e' : u = t
  · subst e'
    have idle : (e.cancelTimer u).timers.get? u = none := Timers.get?_erase_self _ _
    rw [idle]
    exact ⟨nofun, fun w => absurd w (hw.resolve_right hu)⟩
  · have same : (e.cancelTimer t).timers.get? u = e.timers.get? u := Timers.get?_erase_of_ne _ e'
    rw [same]
    exact h.timers u fun du => (hd u du).elim e' hu

theorem put_cases (e : Engine) (p : Packet) :
    (∃ link bytes, e.link.isSome ∧
      e.put p = ({ e with link := some link }.emit (.write (e.requester p) p bytes), .ok ())) ∨
    ∃ link err, link.isSome = e.link.isSome ∧ e.put p = ({ e with link }, .error err) := by
  unfold put
  split
  · next hl => exact .inr ⟨e.link, _, rfl, rfl⟩
  · next link hl =>
    split
    · next link' bytes _ => exact .inl ⟨link', bytes, by simp [hl], rfl⟩
    · next link' err _ => exact .inr ⟨some link', err, by simp [hl], rfl⟩

theorem Ledger.put (h : Ledger w owed e) (p : Packet) : Ledger w owed (e.put p).1 := by
  have relink : ∀ link, Ledger w owed { e with link } := fun _ =>
    { h with events_eq := h.events_eq }
  obtain ⟨link, bytes, -, he⟩ | ⟨link, err, -, he⟩ := e.put_cases p
  all_goals rw [he]
  · exact (relink (some link)).emit (fun _ => rfl) rfl
  · exact relink link

theorem SettledBut.relink (h : SettledBut due w owed e) {link : Option Link}
    (hl : link.isSome = e.link.isSome) : SettledBut due w owed { e with link } := by
  have eq_none : link = none ↔ e.link = none := by
    simpa [Option.isSome_iff_ne_none] using not_congr (Bool.eq_iff_iff.1 hl)
  exact ⟨{ h.ledger with events_eq := h.ledger.events_eq },
    { h.posture with
      link_eq_none := fun hc => eq_none.2 (h.posture.link_eq_none hc)
      link_isSome := fun hc => hl.trans (h.posture.link_isSome hc)
      link_isSome_of_opened := fun hc ho => hl.trans (h.posture.link_isSome_of_opened hc ho)
      opening_iff := h.posture.opening_iff.trans (and_congr_right fun _ => eq_none.symm) },
    h.timers⟩

theorem SettledBut.put (h : SettledBut due w owed e) (p : Packet) :
    SettledBut due w owed (e.put p).1 := by
  obtain ⟨link, bytes, hl, he⟩ | ⟨link, err, hl, he⟩ := e.put_cases p
  all_goals rw [he]
  · have same : (some link).isSome = e.link.isSome := hl.symm
    exact (h.relink same).emit (fun _ => rfl) rfl
  · exact h.relink hl

theorem Ledger.setSession (h : Ledger w owed e) {s : Session}
    (outgoing : s.outgoing = e.session.outgoing) (lastOrder : s.lastOrder = e.session.lastOrder)
    (events : s.events = e.session.events) : Ledger w owed (e.withSession s) :=
  { h with
    sound := h.sound.congr outgoing lastOrder
    events_eq := events.trans h.events_eq
    agrees := fun k => outgoing ▸ h.agrees k }

theorem SettledBut.revise (h : SettledBut due w owed e) {s : Session} (sound : s.IsSound)
    (agrees : ∀ k : UInt16, Agrees e.pending[k]? s.outgoing[k]?)
    (connection : s.connection = e.session.connection)
    (awaitPingResp : s.awaitPingResp = e.session.awaitPingResp)
    (events : s.events = e.session.events) : SettledBut due w owed (e.withSession s) := by
  have same : ∀ k : UInt16, s.outgoing[k]? = none ↔ e.session.outgoing[k]? = none := fun k =>
    (agrees k).eq_none_iff.symm.trans (h.ledger.agrees k).eq_none_iff
  refine ⟨{ h.ledger with
    sound := sound
    events_eq := events.trans h.ledger.events_eq
    agrees := agrees }, ?_, fun t ht => ?_⟩
  · obtain ⟨_⟩ := h.posture
    constructor <;> simp_all [withSession]
  · refine (h.timers t ht).trans ?_
    cases t with
    | ack k => exact and_congr (by rw [← connection]; rfl) (not_congr (same k).symm)
    | _ => simp [Wants, withSession, connection, awaitPingResp]

theorem SettledBut.setSession (h : SettledBut due w owed e) {s : Session}
    (connection : s.connection = e.session.connection)
    (awaitPingResp : s.awaitPingResp = e.session.awaitPingResp)
    (outgoing : s.outgoing = e.session.outgoing) (lastOrder : s.lastOrder = e.session.lastOrder)
    (events : s.events = e.session.events) : SettledBut due w owed (e.withSession s) :=
  h.revise (h.ledger.sound.congr outgoing lastOrder) (fun k => outgoing ▸ h.ledger.agrees k)
    connection awaitPingResp events

theorem write_eq (e : Engine) (p : Packet) :
    ∃ link effects lastOutgoing, (e.write p).1 = { e with
      link
      effects
      session := { e.session with lastOutgoing } } := by
  unfold write
  obtain ⟨link, bytes, -, he⟩ | ⟨link, err, -, he⟩ := e.put_cases p
  all_goals rw [he]
  · exact ⟨_, _, _, rfl⟩
  · exact ⟨_, _, _, rfl⟩

theorem Ledger.write (h : Ledger w owed e) (p : Packet) :
    Ledger w owed (e.write p).1 := by
  have written := h.put p
  unfold Engine.write
  rcases hp : e.put p with ⟨e', _ | _⟩
  all_goals rw [hp] at written
  · exact written
  · exact written.setSession rfl rfl rfl

theorem SettledBut.write (h : SettledBut due w owed e) (p : Packet) :
    SettledBut due w owed (e.write p).1 := by
  have written := h.put p
  unfold Engine.write
  rcases hp : e.put p with ⟨e', _ | _⟩
  all_goals rw [hp] at written
  · exact written
  · exact written.setSession rfl rfl rfl rfl rfl

theorem SettledBut.writeOrLose (h : Settled w owed e) (p : Packet) :
    Settled w owed (e.writeOrLose p) := by
  have written := h.write p
  unfold Engine.writeOrLose
  rcases hp : e.write p with ⟨e', err | _⟩
  all_goals rw [hp] at written
  · exact written.connectionLost _
  · exact written

theorem Ledger.settled_startAttempt (h : Ledger w owed e)
    (hd : e.session.connection = .disconnected) (hc : e.config.isSome) (hl : e.link = none)
    (ha : e.session.awaitPingResp = false)
    (fresh : e.connectCall.isSome → ∀ k : UInt16, e.session.outgoing[k]? = none)
    (ht : ∀ t, e.timers.get? t = none) : Settled w owed e.startAttempt := by
  obtain ⟨config, hconfig⟩ := Option.isSome_iff_exists.1 hc
  have unheard : ¬ w.opened (e.epoch + 1) := fun ho => absurd (h.opened_le ho) (by omega)
  rw [startAttempt, hconfig]
  simp only [Session.connecting, hd, if_true]
  refine ⟨?_, ?_, fun t _ => ?_⟩
  · exact { h with
      sound := h.sound.congr rfl rfl
      account_eq := by
        rw [← h.account_eq]
        funext c
        rw [account_emit]
        rfl
      attempt_le := by
        simp only [Engine.emit, List.mem_append, List.mem_singleton]
        rintro epoch host port (hm | hm)
        · exact Nat.le_succ_of_le (h.attempt_le hm)
        · cases hm
          exact Nat.le_refl _
      outcome_ne := by
        simp only [Engine.emit, List.mem_append, List.mem_singleton]
        rintro call outcome (hm | hm)
        · exact h.outcome_ne hm
        · cases hm
      opened_le := fun ho => Nat.le_succ_of_le (h.opened_le ho) }
  · constructor <;> simp_all [Engine.emit, schedule, withSession]
  · by_cases e' : t = .connect
    · subst e'
      simp [Engine.emit, schedule, withSession, Wants, Timers.get?_set_self]
    · simp [Engine.emit, schedule, withSession, Timers.get?_set_of_ne _ _ e', ht, e',
        wants_of_connecting]

end

end Engine

end MqttClient
