import MqttClient.Proofs.Engine.Entries
import MqttClient.Proofs.Engine.Resubscription

/-! Requests that fail before anything of them is written, and the table of subscriptions. A
subscription without an identifier never enters the table. Any other request that fails leaves the
filters it names without an entry, also those that had one of an earlier subscription, and all
others as they were. -/

namespace MqttClient

/-- Nothing of the request was written: its packet cannot be, or there is no identifier for it. -/
def ClientError.isUnsent : ClientError → Bool
  | .encoding _ => true
  | .session .packetIdsExhausted => true
  | _ => false

def Effect.tellsUnsent : Effect → Bool
  | .answer _ (.error err) => err.isUnsent
  | _ => false

namespace SubscriptionTable

variable {t : SubscriptionTable HandlerId} {f : String}

theorem get?_insertAll {given : List Filter} (unnamed : ∀ g ∈ given, g.path ≠ f)
    (handler : HandlerId) : (given.foldl (·.insert · handler) t).get? f = t.get? f := by
  induction given generalizing t with
  | nil => rfl
  | cons g rest ih =>
    obtain ⟨other, unnamed⟩ := List.forall_mem_cons.1 unnamed
    rw [List.foldl_cons, ih unnamed]
    simp [get?, insert, Std.TreeMap.getElem?_insert, other]

end SubscriptionTable

namespace Call

variable (call : Call) (t : SubscriptionTable HandlerId) (f : String)

theorem get?_withdraw (cause : WireError) :
    (call.withdraw t).get? f =
      if call.loses f (.error (.encoding cause)) then none else t.get? f := by
  cases call with
  | publish => rfl
  | subscribe id p handler =>
    change (SubscriptionTable.eraseAll _ _).get? f =
      if names f (.subscribe id p handler) then _ else _
    rw [SubscriptionTable.get?_eraseAll]
    by_cases named : f ∈ p.filters.map (·.path)
    · simp only [names, named, decide_true, if_true]
    · have unnamed : ∀ g ∈ p.filters, g.path ≠ f := fun g hg same =>
        named (List.mem_map.2 ⟨g, hg, same⟩)
      simp only [names, named, decide_false, Bool.false_eq_true, if_false]
      exact SubscriptionTable.get?_insertAll unnamed handler
  | unsubscribe id p =>
    change (SubscriptionTable.eraseAll _ _).get? f = if names f (.unsubscribe id p) then _ else _
    rw [SubscriptionTable.get?_eraseAll]
    simp only [names, decide_eq_true_eq]

theorem get?_forgo : (call.forgo t).get? f =
    if call.loses f (.error (.session .packetIdsExhausted)) then none else t.get? f := by
  cases call with
  | publish | subscribe => rfl
  | unsubscribe id p =>
    change (SubscriptionTable.eraseAll _ _).get? f = if decide (f ∈ p.filters) then _ else _
    rw [SubscriptionTable.get?_eraseAll]
    simp only [decide_eq_true_eq]

end Call

namespace Engine

variable {e d m : Engine} {call : Call} {queued : Bool} {err : ClientError} {out : List Effect}

def Conceals (e d : Engine) : Prop :=
  ∃ out, d.effects = e.effects ++ out ∧ ∀ x ∈ out, x.tellsUnsent = false

theorem Conceals.of_eq (h : d.effects = e.effects) : Conceals e d :=
  ⟨[], by simpa using h, List.forall_mem_nil _⟩

theorem Conceals.trans (h : Conceals e m) (h' : Conceals m d) : Conceals e d := by
  obtain ⟨out, he, silent⟩ := h
  obtain ⟨out', he', silent'⟩ := h'
  exact ⟨out ++ out', by rw [he', he, List.append_assoc],
    List.forall_mem_append.2 ⟨silent, silent'⟩⟩

theorem conceals_emit (e : Engine) {x : Effect} (other : x.tellsUnsent = false) :
    Conceals e (e.emit x) :=
  ⟨[x], rfl, List.forall_mem_singleton.2 other⟩

theorem conceals_connectionLost (e : Engine) (cause : ConnectionError) :
    Conceals e (e.connectionLost cause) := by
  obtain ⟨out, he, lost⟩ := e.effects_connectionLost cause
  refine ⟨out, he, fun x hx => ?_⟩
  have known := lost x hx
  cases x with
  | answer call outcome =>
    cases outcome with
    | ok => rfl
    | error err =>
      obtain rfl | rfl | rfl := known
      · cases cause <;> rfl
      · rfl
      · rfl
  | _ => rfl

theorem conceals_write_ok {packet : Packet} (he : e.write packet = (d, .ok ())) : Conceals e d := by
  obtain ⟨link, bytes, -, -, -, he'⟩ | ⟨link, err, -, -, he'⟩ | ⟨-, err, -, he'⟩ :=
    e.write_cases packet
  all_goals cases he.symm.trans he'
  exact ⟨_, rfl, List.forall_mem_singleton.2 rfl⟩

theorem sendCall_unsent (connected : e.session.connection = .connected) (call : Call) :
    Conceals e (e.sendCall call) ∨
    (∃ cause, (e.sendCall call).effects
        = e.effects ++ [.answer call.id (.error (.encoding cause))] ∧
      (e.sendCall call).subscriptions = call.withdraw e.subscriptions) ∨
    (e.sendCall call).effects
        = e.effects ++ [.answer call.id (.error (.session .packetIdsExhausted))] ∧
      (e.sendCall call).subscriptions = call.forgo e.subscriptions := by
  obtain ⟨id, p, rfl, he⟩ | ⟨k, packet, phase, -, -, he⟩ | he := e.sendCall_forms connected call
  all_goals rw [he]
  · unfold sendUnacknowledged
    obtain ⟨link, bytes, -, -, -, he'⟩ | ⟨link, cause, -, -, he'⟩ | ⟨-, err, ne, he'⟩ :=
      e.write_cases (.publish { p with packetId := 0 })
    · have written := conceals_write_ok he'
      simp only [he']
      exact .inl (written.trans (conceals_emit _ rfl))
    · simp only [he']
      exact .inr (.inl ⟨cause, rfl, rfl⟩)
    · have lost := (conceals_emit e (x := .answer id (.error .notConnected)) rfl).trans
        (conceals_connectionLost _ (.transport err))
      simp only [he']
      cases err with
      | encoding cause => exact absurd rfl (ne cause)
      | _ => exact .inl lost
  · let opened := { e with subscriptions := call.enter e.subscriptions }.withSession
      (e.session.track e.now k packet phase)
    let waiting : Engine := { opened with pending := opened.pending.insert k call.pending }
    obtain ⟨link, bytes, -, -, -, he'⟩ | ⟨link, cause, -, -, he'⟩ | ⟨-, err, ne, he'⟩ :=
      waiting.write_cases packet
    · rw [transmit_of_ok (e := opened) he']
      have written : Conceals e waiting := .of_eq rfl
      exact .inl (written.trans ((conceals_write_ok he').trans (.of_eq rfl)))
    · rw [transmit_of_encoding (e := opened) he', dropPending_eq, call?_pending]
      exact .inr (.inl ⟨cause, rfl, rfl⟩)
    · rw [transmit_of_error (e := opened) he' ne]
      have held : Conceals e waiting := .of_eq rfl
      exact .inl (held.trans (conceals_connectionLost waiting _))
  · exact .inr (.inr ⟨rfl, rfl⟩)

theorem subscriptions_of_unsent (connected : e.session.connection = .connected)
    (unsent : err.isUnsent = true) (effects : (e.request call queued).effects = e.effects ++ out)
    (answered : .answer call.id (.error err) ∈ out) :
    (∃ cause, err = .encoding cause ∧
      (e.request call queued).subscriptions = call.withdraw e.subscriptions) ∨
    err = .session .packetIdsExhausted ∧
      (e.request call queued).subscriptions = call.forgo e.subscriptions := by
  have told : ¬ Conceals e (e.request call queued) := by
    rintro ⟨out', he, silent⟩
    have same : out = out' := List.append_cancel_left (effects.symm.trans he)
    have concealed := silent (.answer call.id (.error err)) (same ▸ answered)
    cases unsent.symm.trans concealed
  have here : e.isConnected = true := by simp [isConnected, connected]
  have sent : e.request call queued = e.sendCall call := by
    unfold request at told ⊢
    rw [if_pos here] at told ⊢
    split at told
    · exact absurd (.of_eq rfl) told
    · next room => rw [if_neg room]
  rw [sent] at told effects ⊢
  obtain concealed | ⟨cause, he, table⟩ | ⟨he, table⟩ := sendCall_unsent connected call
  · exact absurd concealed told
  all_goals
    cases List.append_cancel_left (effects.symm.trans he)
    cases List.mem_singleton.1 answered
  · exact .inl ⟨cause, rfl, table⟩
  · exact .inr ⟨rfl, table⟩

/-- A request that fails before it is written leaves the filters it loses without an entry, and all
others as they were. So the table is what it was if and only if none of these had an entry. -/
theorem get?_of_unsent {e : Engine} {call : Call} {queued : Bool} {err : ClientError}
    {out : List Effect} (connected : e.session.connection = .connected)
    (unsent : err.isUnsent = true) (effects : (e.request call queued).effects = e.effects ++ out)
    (answered : .answer call.id (.error err) ∈ out) :
    let d := e.request call queued
    (∀ f, d.subscriptions.get? f =
        if call.loses f (.error err) then none else e.subscriptions.get? f) ∧
      ((∀ f, d.subscriptions.get? f = e.subscriptions.get? f) ↔
        ∀ f, call.loses f (.error err) = true → e.subscriptions.get? f = none) := by
  intro d
  have table : ∀ f, d.subscriptions.get? f =
      if call.loses f (.error err) then none else e.subscriptions.get? f := by
    intro f
    obtain ⟨cause, rfl, he⟩ | ⟨rfl, he⟩ := subscriptions_of_unsent connected unsent effects answered
    all_goals rw [he]
    · exact call.get?_withdraw e.subscriptions f cause
    · exact call.get?_forgo e.subscriptions f
  refine ⟨table, fun same f lost => ?_, fun free f => ?_⟩
  · rw [← same f, table f, if_pos lost]
  · rw [table f]
    split
    · next lost => exact (free f lost).symm
    · rfl

def granted : List Command :=
  [.connect 0 (bounded 30), .opened 1 (.ok none), .incoming 1 (.connAck freshSession),
    .call (.subscribe 1 { filters := [{ path := "a", qos := .atMostOnce }] } 0),
    .incoming 1 (.subAck { packetId := 1, returnCodes := [.success .atMostOnce] })]

def longSubscribe : Call :=
  .subscribe 2 { filters := [{ path := "a", qos := .atMostOnce },
    { path := "a/path/that/is/far/too/long", qos := .atMostOnce }] } 1

def longUnsubscribe : Call := .unsubscribe 2 { filters := ["a", "a/path/that/is/far/too/long"] }

theorem get?_longSubscribe :
    let e := granted.foldl handle {}
    let d := e.handle (.call longSubscribe)
    (∀ f, d.subscriptions.get? f =
        if longSubscribe.loses f (.error (.encoding (.outgoingPacketTooLarge 39 30))) then none
        else e.subscriptions.get? f) ∧
      ((∀ f, d.subscriptions.get? f = e.subscriptions.get? f) ↔
        ∀ f, longSubscribe.loses f (.error (.encoding (.outgoingPacketTooLarge 39 30))) = true →
          e.subscriptions.get? f = none) := by
  have connected : (granted.foldl handle {}).session.connection = .connected := by decide +kernel
  have effects : ((granted.foldl handle {}).request longSubscribe false).effects =
      (granted.foldl handle {}).effects ++
        [.answer longSubscribe.id (.error (.encoding (.outgoingPacketTooLarge 39 30)))] := by
    decide +kernel
  exact get?_of_unsent connected rfl effects List.mem_cons_self

/-- Wherever the request is made and fails before it is written, the table stays as it was. -/
def LeavesTable (call : Call) : Prop :=
  ∀ past e err out, Reachable past e → e.session.connection = .connected →
    Possible past e (.call call) → err.isUnsent = true →
    (e.handle (.call call)).effects = e.effects ++ out → .answer call.id (.error err) ∈ out →
    ∀ f, (e.handle (.call call)).subscriptions.get? f = e.subscriptions.get? f

theorem not_leavesTable {call : Call} (h : call ∈ [longSubscribe, longUnsubscribe]) :
    ¬ LeavesTable call := by
  have each : ∀ call ∈ [longSubscribe, longUnsubscribe],
      isPossible granted (granted.foldl handle {}) (.call call) = true ∧
      ((granted.foldl handle {}).handle (.call call)).subscriptions.get? "a" = none ∧
      ∃ size ∈ [39, 37], ((granted.foldl handle {}).handle (.call call)).effects =
        (granted.foldl handle {}).effects ++
          [.answer call.id (.error (.encoding (.outgoingPacketTooLarge size 30)))] := by
    decide +kernel
  have entered : (granted.foldl handle {}).subscriptions.get? "a"
      = some { qos := .atMostOnce, handler := 0 } := by decide +kernel
  intro leaves
  obtain ⟨possible, gone, size, -, effects⟩ := each call h
  have same := leaves granted _ _ _ (reachable_of_isRun (by decide +kernel)) (by decide +kernel)
    (possible_of_isPossible possible) rfl effects List.mem_cons_self "a"
  cases gone.symm.trans (same.trans entered)

/-- Both requests fail before a byte is written, and the entry of the granted filter is gone. -/
theorem not_get?_eq : ¬ LeavesTable longSubscribe ∧ ¬ LeavesTable longUnsubscribe :=
  ⟨not_leavesTable (by simp), not_leavesTable (by simp)⟩

end Engine

end MqttClient
