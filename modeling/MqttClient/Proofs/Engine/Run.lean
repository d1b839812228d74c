import MqttClient.Proofs.Engine.Commands

/-! What holds of an engine in every run: whatever commands come, in whatever order, and whatever
the world does in between. -/

namespace MqttClient.Engine

/-- What the world keeps to: a call is made once, no socket comes before it was asked for, and no
packet comes before its socket. -/
structure Possible (past : List Command) (e : Engine) (c : Command) : Prop where
  fresh : ∀ call, c.call? = some call → ∀ d ∈ past, d.call? ≠ some call
  asked : ∀ epoch result, c = .opened epoch result →
    ∃ host port, .attempt epoch host port ∈ e.effects
  connected : ∀ epoch packet, c = .incoming epoch packet → ∃ d ∈ past, d.Opens epoch

/-- The engines of all runs, with the commands that they took. Between two commands time passes, the
next random number comes up, a connection turns out to be broken or not, and callers leave. -/
inductive Reachable : List Command → Engine → Prop
  | start : Reachable [] {}
  | handle {past e c} : Reachable past e → Possible past e c →
    Reachable (past ++ [c]) (e.handle c)
  | clock {past e} (now : Time) : Reachable past e → Reachable past { e with now }
  | draw {past e} (draw : Nat) : Reachable past e → Reachable past { e with draw }
  | room {past e} (room : Option Nat) : Reachable past e →
    Reachable past { e with link := e.link.map fun link => { link with room } }
  | abandon {past e} (call : CallId) : Reachable past e → Reachable past (e.abandon call)

/-- The caller stopped waiting, with or without a word. -/
def HasLeft (past : List Command) (e : Engine) (call : CallId) : Prop :=
  .cancel call ∈ past ∨ e.abandoned.contains call = true

def worldOf (past : List Command) (e : Engine) : World where
  opened epoch := ∃ d ∈ past, d.Opens epoch
  abandoned := e.abandoned

/-- The engine is in order, and the account of each call says whether it was made. -/
structure Accounted (past : List Command) (e : Engine) : Prop where
  settled : Settled (worldOf past e) e.account e
  account_le : ∀ call, e.account call ≤ 1
  account_eq_zero : ∀ call, (∀ d ∈ past, d.call? ≠ some call) → e.account call = 0
  account_eq_one : ∀ call, (∃ d ∈ past, d.call? = some call) → ¬ HasLeft past e call →
    e.account call = 1

theorem accounted_start : Accounted [] {} := by
  have none : ∀ call, ({} : Engine).account call = 0 := fun _ => rfl
  refine ⟨⟨?_, ?_, fun t _ => ?_⟩, fun call => by simp [none], fun call _ => none call, by simp⟩
  · refine ⟨Session.isSound_of_empty fun _ => Std.TreeMap.getElem?_emptyc, rfl, fun k => ?_, rfl,
      nofun, by simp [worldOf], nofun, nofun, nofun, rfl⟩
    simp [Agrees]
  · constructor <;> simp
  · cases t <;> simp [Wants, Timers.get?]

variable {past : List Command} {e : Engine} {c : Command}

theorem Accounted.take_eq (h : Accounted past e) (hc : Possible past e c) (call : CallId) :
    take e.account c.call? call = if c.call? = some call then 1 else e.account call := by
  by_cases new : c.call? = some call
  · have unknown := h.account_eq_zero call (hc.fresh call new)
    simp [take, new, unknown]
  · simp [take, new]

theorem Accounted.take_le_one (h : Accounted past e) (hc : Possible past e c) (call : CallId) :
    take e.account c.call? call ≤ 1 := by
  have known := h.account_le call
  rw [h.take_eq hc]
  split <;> omega

theorem Accounted.take_eq_zero (h : Accounted past e) (hc : Possible past e c) {call : CallId}
    (unmade : ∀ d ∈ past ++ [c], d.call? ≠ some call) : take e.account c.call? call = 0 := by
  have new : c.call? ≠ some call := unmade c (by simp)
  rw [h.take_eq hc, if_neg new]
  exact h.account_eq_zero call fun d hd => unmade d (List.mem_append_left _ hd)

theorem Accounted.take_eq_one (h : Accounted past e) (hc : Possible past e c) {call : CallId}
    (made : ∃ d ∈ past ++ [c], d.call? = some call) (stays : ¬ HasLeft past e call) :
    take e.account c.call? call = 1 := by
  rw [h.take_eq hc]
  split
  · rfl
  · next old =>
    obtain ⟨d, hd, hcall⟩ := made
    refine h.account_eq_one call ⟨d, ?_, hcall⟩ stays
    refine (List.mem_append.1 hd).resolve_right fun hd => old ?_
    rwa [← List.mem_singleton.1 hd]

theorem Accounted.heard (h : Accounted past e) (hc : Possible past e c) :
    Heard (worldOf past e) e c := by
  cases c with
  | opened epoch result =>
    obtain ⟨host, port, hm⟩ := hc.asked epoch result rfl
    exact h.settled.ledger.attempt_le hm
  | incoming epoch packet => exact hc.connected epoch packet rfl
  | _ => trivial

theorem Accounted.handle (h : Accounted past e) (hc : Possible past e c) :
    Accounted (past ++ [c]) (e.handle c) := by
  obtain ⟨owed, spares, settled⟩ := h.settled.handle (h.heard hc)
  have account : (e.handle c).account = owed := settled.ledger.account_eq
  have abandoned : (e.handle c).abandoned = e.abandoned := settled.ledger.abandoned_eq
  have world : (worldOf past e).after c = worldOf (past ++ [c]) (e.handle c) := by
    simp [worldOf, World.after, abandoned, or_and_right, exists_or]
  have left : ∀ call, (worldOf past e).Left c call ∨ HasLeft past e call →
      HasLeft (past ++ [c]) (e.handle c) call := by
    rintro call ((rfl | gone) | (told | gone))
    · exact .inl (by simp)
    · exact .inr (by rwa [abandoned])
    · exact .inl (List.mem_append_left _ told)
    · exact .inr (by rwa [abandoned])
  refine ⟨by rwa [account, ← world], fun call => ?_, fun call unmade => ?_,
    fun call made stays => ?_⟩
  · have le := h.take_le_one hc call
    have spared := (spares call).1
    rw [account]
    omega
  · have zero := h.take_eq_zero hc unmade
    have spared := (spares call).1
    rw [account]
    omega
  · have spared := (spares call).2 fun gone => stays (left call (.inl gone))
    rw [account, spared]
    exact h.take_eq_one hc made fun gone => stays (left call (.inr gone))

theorem Accounted.congr {d : Engine} (h : Accounted past e)
    (settled : Settled (worldOf past d) e.account d)
    (left : ∀ call, HasLeft past e call → HasLeft past d call) : Accounted past d := by
  have account : d.account = e.account := settled.ledger.account_eq
  refine ⟨by rwa [account], ?_, ?_, fun call hcall stays => ?_⟩
  · rw [account]
    exact h.account_le
  · rw [account]
    exact h.account_eq_zero
  · rw [account]
    exact h.account_eq_one call hcall fun gone => stays (left call gone)

theorem Accounted.room (h : Accounted past e) (room : Option Nat) :
    Accounted past { e with link := e.link.map fun link => { link with room } } :=
  h.congr (h.settled.relink (by simp)) fun _ => id

theorem Accounted.ambient (h : Accounted past e) (now : Time) (draw : Nat)
    {abandoned : Std.TreeSet CallId}
    (left : ∀ call, e.abandoned.contains call → abandoned.contains call) :
    Accounted past { e with now, draw, abandoned } := by
  have ledger : Ledger (worldOf past { e with now, draw, abandoned }) e.account
      { e with now, draw, abandoned } :=
    { h.settled.ledger with abandoned_eq := rfl }
  exact h.congr ⟨ledger, { h.settled.posture with fresh := h.settled.posture.fresh },
    h.settled.timers⟩ fun call gone => gone.imp_right (left call)

theorem Reachable.accounted (h : Reachable past e) : Accounted past e := by
  induction h with
  | start => exact accounted_start
  | handle _ possible ih => exact ih.handle possible
  | @clock _ e now _ ih => exact ih.ambient now e.draw fun _ => id
  | @draw _ e draw _ ih => exact ih.ambient e.now draw fun _ => id
  | room room _ ih => exact ih.room room
  | @abandon _ e call _ ih =>
    exact ih.ambient e.now e.draw fun c gone => by simp [gone]

theorem Reachable.snoc (h : Reachable past (past.foldl Engine.handle {}))
    (hc : Possible past (past.foldl Engine.handle {}) c) :
    Reachable (past ++ [c]) ((past ++ [c]).foldl Engine.handle {}) := by
  rw [List.foldl_append]
  exact h.handle hc

def greeting : List Command :=
  [.connect 0 { clientId := "", host := "h", port := 1883 }, .opened 1 (.ok none),
    .incoming 1 (.connAck { sessionPresent := false, code := .success }),
    .call (.publish 1 { qos := .exactlyOnce, topic := "a", payload := [] })]

theorem reachable_greeting : Reachable greeting (greeting.foldl handle {}) := by
  have nothing : Reachable [] (List.foldl handle {} []) := .start
  have asked := nothing.snoc (c := .connect 0 { clientId := "", host := "h", port := 1883 })
    ⟨fun _ _ _ hd => absurd hd List.not_mem_nil, fun _ _ => nofun, fun _ _ => nofun⟩
  have opened := asked.snoc (c := .opened 1 (.ok none)) (by
    refine ⟨nofun, ?_, nofun⟩
    rintro epoch result ⟨⟩
    exact ⟨"h", 1883, List.mem_singleton.2 rfl⟩)
  have connected := opened.snoc
    (c := .incoming 1 (.connAck { sessionPresent := false, code := .success })) (by
      refine ⟨nofun, nofun, ?_⟩
      rintro epoch packet ⟨⟩
      exact ⟨_, by simp, none, rfl⟩)
  refine connected.snoc
    (c := .call (.publish 1 { qos := .exactlyOnce, topic := "a", payload := [] }))
    ⟨?_, nofun, nofun⟩
  rintro call ⟨⟩
  simp [Command.call?, Call.id]

/-- A call that the engine took was answered once, waits in one place, or was given up by its
caller. -/
theorem answered_or_held_of_reachable {past : List Command} {e : Engine} (h : Reachable past e)
    {call : CallId} (taken : ∃ c ∈ past, c.call? = some call) :
    (e.answers call = 1 ∧ e.held call = 0) ∨ (e.answers call = 0 ∧ e.held call = 1) ∨
      (e.answers call = 0 ∧ e.held call = 0 ∧ HasLeft past e call) := by
  have le := h.accounted.account_le call
  have one := h.accounted.account_eq_one call taken
  by_cases left : HasLeft past e call
  · unfold account at le
    have cases : e.answers call = 0 ∧ e.held call = 0 ∨ e.answers call + e.held call = 1 := by
      omega
    obtain ⟨unanswered, unheld⟩ | once := cases
    · exact .inr (.inr ⟨unanswered, unheld, left⟩)
    · omega
  · have once := one left
    unfold account at once
    omega

theorem answered_or_held_greeting :
    let e := greeting.foldl handle {}
    (∃ c ∈ greeting, c.call? = some 1) ∧ e.answers 1 = 0 ∧ e.held 1 = 1 := by
  have taken : ∃ c ∈ greeting, c.call? = some 1 := ⟨_, List.getLast_mem (by simp [greeting]), rfl⟩
  have unanswered : (greeting.foldl handle {}).answers 1 = 0 := by decide +kernel
  have stays : ¬ HasLeft greeting (greeting.foldl handle {}) 1 := by
    simp only [HasLeft, not_or, greeting, List.mem_cons, reduceCtorEq, List.not_mem_nil, or_false,
      not_false_iff, true_and]
    decide +kernel
  obtain ⟨once, -⟩ | waits | ⟨-, -, left⟩ :=
    answered_or_held_of_reachable reachable_greeting taken
  · omega
  · exact ⟨taken, waits⟩
  · exact absurd left stays

/-- The call that an event ends is the one that waits. -/
def Finds (e : Engine) : Event → Prop
  | .published k _ => ∃ id, e.pending[k]? = some (.publish id)
  | .subscribed p => (∃ id paths, e.pending[p.packetId]? = some (.subscribe id paths)) ∨
      ∃ paths, e.pending[p.packetId]? = some (.resubscribe paths)
  | .unsubscribed p => ∃ id, e.pending[p.packetId]? = some (.unsubscribe id)
  | _ => True

/-- The transactions, the calls that wait for them and their timers agree. -/
structure TablesAgree (e : Engine) : Prop where
  mem_iff : ∀ k, k ∈ e.pending ↔ k ∈ e.session.outgoing
  awaits : ∀ (k : UInt16) (p : Pending) (t : Transaction), e.pending[k]? = some p →
    e.session.outgoing[k]? = some t → p.Awaits t.phase
  finds : ∀ now packet, (e.session.receive now packet).1.events = [] ∨
    ∃ event, (e.session.receive now packet).1.events = [event] ∧ e.Finds event
  outcome_ne : ∀ call outcome, .answer call outcome ∈ e.effects →
    outcome ≠ .error (.session .wrongPacket)
  armed_iff : ∀ k, (e.timers.get? (.ack k)).isSome ↔
    e.session.connection = .connected ∧ k ∈ e.session.outgoing

theorem Ledger.finds {w : World} {owed : CallId → Nat} (h : Ledger w owed e) {k : UInt16}
    {t : Transaction} {event : Event} (ht : e.session.outgoing[k]? = some t)
    (he : event.Ends k t.phase) : e.Finds event := by
  obtain ⟨p, hp, awaits⟩ := h.exists_pending ht
  cases event with
  | published j ack =>
    obtain ⟨rfl, hs⟩ := he
    cases p with
    | publish id => exact ⟨id, hp⟩
    | _ => rcases hs with hs | hs <;> simp [Pending.Awaits, hs] at awaits
  | subscribed a =>
    obtain ⟨rfl, hs⟩ := he
    cases p with
    | subscribe id paths => exact .inl ⟨id, paths, hp⟩
    | resubscribe paths => exact .inr ⟨paths, hp⟩
    | _ => simp [Pending.Awaits, hs] at awaits
  | unsubscribed a =>
    obtain ⟨rfl, hs⟩ := he
    cases p with
    | unsubscribe id => exact ⟨id, hp⟩
    | _ => simp [Pending.Awaits, hs] at awaits
  | _ => trivial

theorem Ledger.finds_of_receive {w : World} {owed : CallId → Nat} (h : Ledger w owed e)
    (now : Time) (packet : Packet) :
    (e.session.receive now packet).1.events = [] ∨
      ∃ event, (e.session.receive now packet).1.events = [event] ∧ e.Finds event := by
  obtain ⟨err, he⟩ | ⟨s, events, reply, hr, he⟩ := Session.receive_cases h.sound now packet
  all_goals rw [he]
  · exact .inl h.events_eq
  · simp only [h.events_eq, List.nil_append]
    cases hr with
    | noted | release => exact .inl rfl
    | ended ht hends => exact .inr ⟨_, rfl, h.finds ht hends⟩
    | _ => exact .inr ⟨_, rfl, trivial⟩

theorem tables_agree_of_reachable {past : List Command} {e : Engine} (h : Reachable past e) :
    TablesAgree e := by
  have settled := h.accounted.settled
  have ledger := settled.ledger
  have outgoing : ∀ k : UInt16, k ∈ e.session.outgoing ↔ e.session.outgoing[k]? ≠ none := by
    intro k
    rw [Std.TreeMap.mem_iff_isSome_getElem?, Option.isSome_iff_ne_none]
  refine ⟨fun k => ?_, fun k p t hp ht => ?_, ledger.finds_of_receive, fun _ _ => ledger.outcome_ne,
    fun k => ?_⟩
  · rw [outgoing, Std.TreeMap.mem_iff_isSome_getElem?, Option.isSome_iff_ne_none]
    exact not_congr (ledger.agrees k).eq_none_iff
  · have agrees := ledger.agrees k
    rwa [hp, ht] at agrees
  · rw [outgoing]
    exact settled.timers (.ack k) id

theorem tables_agree_greeting :
    let e := greeting.foldl handle {}
    e.pending[(1 : UInt16)]? = some (.publish 1) ∧ TablesAgree e := by
  have pending : (greeting.foldl handle {}).pending[(1 : UInt16)]? = some (.publish 1) := by
    decide +kernel
  exact ⟨pending, tables_agree_of_reachable reachable_greeting⟩

/-- Something will wake the engine, unless nothing waits. -/
structure Awake (e : Engine) : Prop where
  connection_ne : e.session.connection ≠ .disconnecting
  connecting : e.session.connection = .connecting →
    (e.timers.get? .connect).isSome ∧ (e.opening ↔ e.link = none)
  connected : e.session.connection = .connected →
    e.link.isSome ∧ (e.keepAlive.isZero = false → (e.timers.get? .keepAlive).isSome) ∧
      (e.session.awaitPingResp → (e.timers.get? .pingResp).isSome)
  supervised : e.session.connection = .disconnected → e.supervisor.isSome →
    (e.timers.get? .reconnect).isSome
  unsupervised : e.session.connection = .disconnected → e.supervisor = none →
    (∀ t, e.timers.get? t = none) ∧ e.link = none ∧ e.opening = false ∧ e.connectCall = none ∧
      e.pending.isEmpty ∧ e.backlog = [] ∧ e.session.outgoing.isEmpty
  reconnect : (e.timers.get? .reconnect).isSome →
    e.session.connection = .disconnected ∧ e.supervisor.isSome

theorem awake_of_reachable {past : List Command} {e : Engine} (h : Reachable past e) :
    Awake e := by
  have settled := h.accounted.settled
  have posture := settled.posture
  have timers : ∀ t, (e.timers.get? t).isSome ↔ e.Wants t := fun t => settled.timers t id
  refine ⟨posture.connection_ne, fun hc => ⟨?_, ?_⟩, fun hc => ⟨posture.link_isSome hc, ?_, ?_⟩,
    fun hd hs => ?_, fun hd hs => ?_, fun armed => ?_⟩
  · exact (timers .connect).2 hc
  · simpa [hc] using posture.opening_iff
  · exact fun hk => (timers .keepAlive).2 ⟨hc, hk⟩
  · exact fun ha => (timers .pingResp).2 ⟨hc, ha⟩
  · exact (timers .reconnect).2 ⟨hd, hs⟩
  · obtain ⟨outgoing, backlog⟩ := posture.idle hd hs
    have unarmed : ∀ t, e.timers.get? t = none := fun t => by
      have wanted := timers t
      rw [wants_of_disconnected hd, hs] at wanted
      simpa using wanted
    have opening : e.opening = false := by simpa [hd] using posture.opening_iff
    have pending : ∀ k : UInt16, e.pending[k]? = none := fun k =>
      (settled.ledger.agrees k).eq_none_iff.2 (outgoing k)
    refine ⟨unarmed, posture.link_eq_none hd, opening, posture.connectCall_eq (by simp [hd]), ?_,
      backlog, ?_⟩
    · refine Std.TreeMap.isEmpty_iff_forall_not_mem.2 fun k hk => ?_
      rw [Std.TreeMap.mem_iff_isSome_getElem?, pending k] at hk
      cases hk
    · refine Std.TreeMap.isEmpty_iff_forall_not_mem.2 fun k hk => ?_
      rw [Std.TreeMap.mem_iff_isSome_getElem?, outgoing k] at hk
      cases hk
  · exact (timers .reconnect).1 armed

theorem awake_greeting :
    let e := greeting.foldl handle {}
    e.session.connection = .connected ∧ Awake e := by
  have connected : (greeting.foldl handle {}).session.connection = .connected := by
    decide +kernel
  exact ⟨connected, awake_of_reachable reachable_greeting⟩

end MqttClient.Engine
