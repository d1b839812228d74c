import MqttClient.Proofs.Engine.Reactions

/-! What is out of date does nothing. The epoch is never lowered and ends with the connection, and
no number of a timer is used twice, so that a command that comes late, from a connection that was
given up or a timer that no longer runs, meets neither. -/

namespace MqttClient

def Command.epoch? : Command → Option Nat
  | .opened epoch _ | .incoming epoch _ | .networkDown epoch _ => some epoch
  | _ => none

/-- What time does to the front of an engine. -/
structure Front.Ages (f g : Front) : Prop where
  epoch_le : f.epoch ≤ g.epoch
  /-- Whatever opens or ends a connection raises the epoch. -/
  disconnected_iff : g.epoch = f.epoch →
    (g.connection = .disconnected ↔ f.connection = .disconnected)
  lastTimerId_le : f.lastTimerId ≤ g.lastTimerId
  timer : ∀ {timer : Timer} {a : Armed}, g.timers.get? timer = some a →
    f.timers.get? timer = some a ∨ f.lastTimerId < a.id ∧ a.id ≤ g.lastTimerId

namespace Front

variable {f g k : Front} {c : Command} {gives : ConnectionError → Prop}

theorem Ages.refl (f : Front) : Ages f f :=
  ⟨Nat.le_refl _, fun _ => Iff.rfl, Nat.le_refl _, .inl⟩

theorem Ages.trans (h : Ages f g) (h' : Ages g k) : Ages f k where
  epoch_le := Nat.le_trans h.epoch_le h'.epoch_le
  disconnected_iff same := by
    have le := h.epoch_le
    have le' := h'.epoch_le
    exact (h'.disconnected_iff (by omega)).trans (h.disconnected_iff (by omega))
  lastTimerId_le := Nat.le_trans h.lastTimerId_le h'.lastTimerId_le
  timer ha := by
    have le := h.lastTimerId_le
    have le' := h'.lastTimerId_le
    obtain earlier | ⟨lt, bound⟩ := h'.timer ha
    · exact (h.timer earlier).imp_right fun ⟨lt, bound⟩ => ⟨lt, by omega⟩
    · exact .inr ⟨by omega, bound⟩

theorem Ages.of_eq (epoch : g.epoch = f.epoch)
    (connection : g.connection = .disconnected ↔ f.connection = .disconnected)
    (lastTimerId : g.lastTimerId = f.lastTimerId)
    (timer : ∀ {timer : Timer} {a : Armed}, g.timers.get? timer = some a →
      f.timers.get? timer = some a) : Ages f g :=
  ⟨Nat.le_of_eq epoch.symm, fun _ => connection, Nat.le_of_eq lastTimerId.symm,
    fun ha => .inl (timer ha)⟩

theorem ages_schedule (f : Front) (timer : Timer) (delay : Duration) :
    Ages f (f.schedule timer delay) where
  epoch_le := Nat.le_refl _
  disconnected_iff _ := Iff.rfl
  lastTimerId_le := Nat.le_succ _
  timer {other a} ha := by
    change (f.timers.set timer _).get? other = some a at ha
    by_cases same : other = timer
    · rw [same, Timers.get?_set_self] at ha
      cases ha
      exact .inr ⟨Nat.lt_succ_self _, Nat.le_refl _⟩
    · rw [Timers.get?_set_of_ne _ _ same] at ha
      exact .inl ha

theorem ages_of_move (h : Move c gives f g) : Ages f g := by
  cases h with
  | tells | writes | pongs => exact .of_eq rfl Iff.rfl rfl id
  | arms timer _ delay => exact ages_schedule f timer delay
  | disarms => exact .of_eq rfl Iff.rfl rfl Timers.get?_of_erase
  | pings bytes =>
    have asked : Ages f { f.wrote none .pingReq bytes with awaitPingResp := true } :=
      .of_eq rfl Iff.rfl rfl id
    exact asked.trans (ages_schedule _ _ _)
  | accepts _ _ connecting => exact .of_eq rfl (by simp [connecting]) rfl id
  | parts =>
    refine ⟨Nat.le_succ _, fun same => ?_, Nat.le_refl _, fun {timer a} ha => ?_⟩
    · exact absurd same (Nat.succ_ne_self _)
    · cases (Engine.get?_empty timer).symm.trans ha
  | attempts =>
    exact ⟨Nat.le_succ _, fun same => absurd same (Nat.succ_ne_self _), Nat.le_refl _, .inl⟩

theorem ages_of_moves (h : Moves c gives f g) : Ages f g := by
  induction h with
  | refl => exact .refl f
  | tail _ move ih => exact ih.trans (ages_of_move move)

end Front

namespace Engine

variable {past past₁ past₂ : List Command} {e e₁ d m : Engine} {c : Command}

theorem Reacts.ages (h : Reacts c e d) : e.front.Ages d.front := by
  cases h with
  | moves _ moves | fails _ moves => exact Front.ages_of_moves moves
  | greets _ _ front_eq =>
    rw [front_eq]
    exact .of_eq rfl Iff.rfl rfl id

theorem Drifts.effects_eq (h : Drifts e d) : d.effects = e.effects := by
  cases h <;> rfl

theorem Drifts.ages (h : Drifts e d) : e.front.Ages d.front := by
  cases h <;> exact .of_eq rfl Iff.rfl rfl id

theorem Leads.ages (h : Leads past₁ e₁ past e) (run : Reachable past₁ e₁) :
    e₁.front.Ages e.front := by
  induction h with
  | refl => exact .refl _
  | handle leads possible ih => exact ih.trans ((leads.reachable run).reacts possible).ages
  | drift _ drifts ih => exact ih.trans drifts.ages

theorem Reachable.id_le (h : Reachable past e) {timer : Timer} {a : Armed}
    (ha : e.timers.get? timer = some a) : a.id ≤ e.lastTimerId := by
  induction h generalizing a with
  | start => cases (get?_empty timer).symm.trans ha
  | handle reached possible ih =>
    obtain old | ⟨-, le⟩ := ((reached.reacts possible).ages).timer ha
    · exact Nat.le_trans (ih old) (reached.reacts possible).ages.lastTimerId_le
    · exact le
  | clock _ _ ih | draw _ _ ih | room _ _ ih | abandon _ _ ih => exact ih ha

theorem Reachable.disconnected_iff (h : Reachable past e) :
    e.session.connection = .disconnected ↔ e.opening = false ∧ e.link = none := by
  have posture := h.accounted.settled.posture
  constructor
  · intro gone
    refine ⟨?_, posture.link_eq_none gone⟩
    rw [← Bool.not_eq_true, posture.opening_iff, gone]
    simp
  · rintro ⟨closed, unlinked⟩
    cases hc : e.session.connection with
    | disconnected => rfl
    | connecting =>
      have opening := posture.opening_iff.2 ⟨hc, unlinked⟩
      cases closed.symm.trans opening
    | connected =>
      have linked := posture.link_isSome hc
      rw [unlinked] at linked
      cases linked
    | disconnecting => exact absurd hc posture.connection_ne

/-- The command was produced when it was of use, and came to be out of date since: its attempt or
its connection was given up, or its timer was cancelled, armed anew or dropped. Whatever happened
after that, another connection may have been made, and a timer of the same kind may run. -/
inductive Stale (past : List Command) (e : Engine) : Command → Prop
  | network {past₁ past₂ : List Command} {e₁ m : Engine} {c : Command} (run : Reachable past₁ e₁)
    (live : e₁.opening = true ∨ e₁.link.isSome) (produced : c.epoch? = some e₁.epoch)
    (before : Leads past₁ e₁ past₂ m) (torn : m.opening = false ∧ m.link = none)
    (since : Leads past₂ m past e) : Stale past e c
  | timer {past₁ past₂ : List Command} {e₁ m : Engine} (timer : Timer) {a : Armed}
    (run : Reachable past₁ e₁) (armed : e₁.timers.get? timer = some a)
    (before : Leads past₁ e₁ past₂ m) (stopped : m.timers.get? timer ≠ some a)
    (since : Leads past₂ m past e) : Stale past e (.timer timer a.id)

theorem epoch_lt_of_torn (run : Reachable past₁ e₁) (live : e₁.opening = true ∨ e₁.link.isSome)
    (before : Leads past₁ e₁ past m) (torn : m.opening = false ∧ m.link = none) :
    e₁.epoch < m.epoch := by
  have ages := before.ages run
  have gone := (before.reachable run).disconnected_iff.2 torn
  -- Whatever ends a connection raises the epoch.
  refine Nat.lt_of_le_of_ne ages.epoch_le fun same => ?_
  obtain ⟨closed, unlinked⟩ := run.disconnected_iff.1 ((ages.disconnected_iff same.symm).1 gone)
  obtain opening | linked := live
  · cases closed.symm.trans opening
  · rw [unlinked] at linked
    cases linked

theorem id_ne_of_stopped {timer : Timer} {a b : Armed} (run : Reachable past₁ e₁)
    (armed : e₁.timers.get? timer = some a) (before : Leads past₁ e₁ past₂ m)
    (stopped : m.timers.get? timer ≠ some a) (since : Leads past₂ m past e)
    (runs : e.timers.get? timer = some b) : b.id ≠ a.id := by
  have given := run.id_le armed
  have ages := before.ages run
  have later := ages.lastTimerId_le
  -- A timer that runs ran before, or has a number above those that were given out.
  obtain old | ⟨lt, -⟩ := (since.ages (before.reachable run)).timer runs
  · obtain older | ⟨lt, -⟩ := ages.timer old
    · cases older.symm.trans armed
      exact absurd old stopped
    · change e₁.lastTimerId < b.id at lt
      omega
  · change m.lastTimerId < b.id at lt
    change e₁.lastTimerId ≤ m.lastTimerId at later
    omega

theorem handle_of_epoch_ne {epoch : Nat} (comes : c.epoch? = some epoch) (ne : epoch ≠ e.epoch) :
    e.handle c = e := by
  cases c with
  | opened | incoming | networkDown =>
    cases comes
    exact if_neg ne
  | _ => cases comes

theorem handle_of_not_running {timer : Timer} {id : Nat}
    (stopped : ∀ b, e.timers.get? timer = some b → b.id ≠ id) :
    e.handle (.timer timer id) = e := by
  refine if_neg ?_
  cases ht : e.timers.get? timer with
  | none => exact Bool.false_ne_true
  | some b => simpa using stopped b ht

/-- A command that is out of date changes nothing of the engine, and the engine does nothing. -/
theorem handle_of_stale (h : Stale past e c) : e.handle c = e := by
  cases h with
  | network run live produced before torn since =>
    have lt := epoch_lt_of_torn run live before torn
    have le := (since.ages (before.reachable run)).epoch_le
    exact handle_of_epoch_ne produced (Nat.ne_of_lt (Nat.lt_of_lt_of_le lt le))
  | timer timer run armed before stopped since =>
    exact handle_of_not_running fun b runs => id_ne_of_stopped run armed before stopped since runs

def sentOnce : List Command :=
  [.connect 0 { clientId := "", host := "h", port := 1883, reconnect := some {}
                one_le_inflight := Config.one_le_hundred },
    .opened 1 (.ok none), .incoming 1 (.connAck { sessionPresent := false, code := .success }),
    .call (.publish 1 { qos := .atLeastOnce, topic := "a", payload := [] })]

def broken : List Command := [.networkDown 1 .connectionClosed]

def sentAgain : List Command :=
  [.timer .reconnect 4, .opened 3 (.ok none),
    .incoming 3 (.connAck { sessionPresent := true, code := .success })]

theorem leads_sentAgain :
    Reachable sentOnce (sentOnce.foldl handle {}) ∧
    Leads sentOnce (sentOnce.foldl handle {}) (sentOnce ++ broken)
      (broken.foldl handle (sentOnce.foldl handle {})) ∧
    Leads (sentOnce ++ broken) (broken.foldl handle (sentOnce.foldl handle {}))
      (sentOnce ++ broken ++ sentAgain)
      (sentAgain.foldl handle (broken.foldl handle (sentOnce.foldl handle {}))) :=
  ⟨reachable_of_isRun (by decide +kernel), Leads.refl.append (by decide +kernel),
    Leads.refl.append (by decide +kernel)⟩

/-- The time for the first acknowledgement ran out while the connection was lost, and a timer runs
for the second; an acknowledgement on the lost connection comes late, too. -/
theorem handle_sentAgain :
    let e := sentAgain.foldl handle (broken.foldl handle (sentOnce.foldl handle {}))
    e.timers.get? (.ack 1) = some ⟨7, 30000000000⟩ ∧
      Stale (sentOnce ++ broken ++ sentAgain) e (.timer (.ack 1) 3) ∧
      e.handle (.timer (.ack 1) 3) = e ∧
      Stale (sentOnce ++ broken ++ sentAgain) e
        (.incoming 1 (.pubAck { packetId := 1, reason := .success })) ∧
      e.handle (.incoming 1 (.pubAck { packetId := 1, reason := .success })) = e := by
  obtain ⟨run, before, since⟩ := leads_sentAgain
  have timer := Stale.timer (.ack 1) (a := ⟨3, 30000000000⟩) run (by decide +kernel) before
    (by decide +kernel) since
  have network := Stale.network (c := .incoming 1 (.pubAck { packetId := 1, reason := .success }))
    run (.inr (by decide +kernel)) (by decide +kernel) before (by decide +kernel) since
  exact ⟨by decide +kernel, timer, handle_of_stale timer, network, handle_of_stale network⟩

end Engine

end MqttClient
