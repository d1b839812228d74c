import Mathlib.Data.List.Induction
import MqttClient.Proofs.Engine.Resubscription

/-! What the table of subscriptions remembers of the filters that went into it: of every path the
filter that was given last, if it was not removed since, with its quality of service. The other
options of a filter are not kept, so that the request of a new connection asks for them as they are
by default. -/

namespace MqttClient

/-- The filter as the table remembers it: with the other options as they are by default. -/
def Filter.remembered (f : Filter) : Filter := { path := f.path, qos := f.qos }

namespace SubscriptionTable

variable {H : Type}

inductive Operation (H : Type)
  | insert (f : Filter) (handler : H)
  | erase (path : String)

namespace Operation

def path : Operation H → String
  | insert f _ => f.path
  | erase path => path

def entry? : Operation H → Option (Subscription H)
  | insert f handler => some { qos := f.qos, handler }
  | erase _ => none

end Operation

def apply (t : SubscriptionTable H) : Operation H → SubscriptionTable H
  | .insert f handler => t.insert f handler
  | .erase path => t.erase path

def ofOperations (ops : List (Operation H)) : SubscriptionTable H := ops.foldl apply {}

/-- The filter went into the table, and its path was neither given again nor removed since. -/
def Stands (ops : List (Operation H)) (f : Filter) (handler : H) : Prop :=
  ∃ earlier later, ops = earlier ++ .insert f handler :: later ∧ ∀ op ∈ later, op.path ≠ f.path

theorem get?_apply (t : SubscriptionTable H) (op : Operation H) (path : String) :
    (t.apply op).get? path = if op.path = path then op.entry? else t.get? path := by
  cases op with
  | insert f handler =>
    by_cases here : f.path = path <;>
      simp [apply, insert, get?, Operation.path, Operation.entry?, Std.TreeMap.getElem?_insert,
        here]
  | erase gone =>
    by_cases here : gone = path <;>
      simp [apply, erase, get?, Operation.path, Operation.entry?, Std.TreeMap.getElem?_erase, here]

theorem stands_snoc {ops : List (Operation H)} {op : Operation H} {f : Filter} {handler : H} :
    Stands (ops ++ [op]) f handler ↔
      op = .insert f handler ∨ Stands ops f handler ∧ op.path ≠ f.path := by
  constructor
  · rintro ⟨earlier, later, split, untouched⟩
    obtain ⟨rfl, same, -⟩ | ⟨later, rfl, rfl⟩ := Listing.concat_eq_append_cons_iff.1 split
    · exact .inl same.symm
    · rw [List.forall_mem_append] at untouched
      exact .inr ⟨⟨earlier, later, rfl, untouched.1⟩, untouched.2 op List.mem_cons_self⟩
  · rintro (rfl | ⟨⟨earlier, later, rfl, untouched⟩, other⟩)
    · exact ⟨ops, [], rfl, List.forall_mem_nil _⟩
    · refine ⟨earlier, later ++ [op], by simp, ?_⟩
      exact List.forall_mem_append.2 ⟨untouched, List.forall_mem_singleton.2 other⟩

theorem get?_ofOperations (ops : List (Operation H)) (path : String) (s : Subscription H) :
    (ofOperations ops).get? path = some s ↔
      ∃ f, Stands ops f s.handler ∧ f.path = path ∧ f.qos = s.qos := by
  induction ops using List.reverseRecOn with
  | nil =>
    have empty : (ofOperations ([] : List (Operation H))).get? path = none :=
      Std.TreeMap.getElem?_emptyc
    rw [empty]
    refine ⟨nofun, ?_⟩
    rintro ⟨f, ⟨earlier, later, split, -⟩, -⟩
    exact absurd split.symm (List.append_ne_nil_of_right_ne_nil _ (List.cons_ne_nil _ _))
  | append_singleton ops op ih =>
    rw [ofOperations, List.foldl_concat, get?_apply]
    change (if op.path = path then op.entry? else (ofOperations ops).get? path) = some s ↔ _
    simp only [stands_snoc]
    split
    · next here =>
      constructor
      · intro entered
        cases op with
        | insert f handler =>
          cases entered
          exact ⟨f, .inl rfl, here, rfl⟩
        | erase => cases entered
      · rintro ⟨f, rfl | ⟨-, other⟩, at_path, qos⟩
        · rw [Operation.entry?, qos]
        · exact absurd (here.trans at_path.symm) other
    · next elsewhere =>
      rw [ih]
      constructor
      · rintro ⟨f, stands, at_path, qos⟩
        exact ⟨f, .inr ⟨stands, fun same => elsewhere (same.trans at_path)⟩, at_path, qos⟩
      · rintro ⟨f, rfl | ⟨stands, -⟩, at_path, qos⟩
        · exact absurd at_path elsewhere
        · exact ⟨f, stands, at_path, qos⟩

theorem pairwise_filters (t : SubscriptionTable H) :
    t.filters.Pairwise fun f g => f.path < g.path := by
  rw [filters, List.pairwise_map]
  exact t.entries.ordered_keys_toList.imp fun less => compareOfLessAndEq_eq_lt.1 less

theorem mem_filters {t : SubscriptionTable H} {f : Filter} :
    f ∈ t.filters ↔ ∃ s, t.get? f.path = some s ∧ f = { path := f.path, qos := s.qos } := by
  simp only [filters, List.mem_map, Prod.exists, get?]
  constructor
  · rintro ⟨path, s, entered, rfl⟩
    exact ⟨s, Std.TreeMap.mem_toList_iff_getElem?_eq_some.1 entered, rfl⟩
  · rintro ⟨s, entered, same⟩
    exact ⟨f.path, s, Std.TreeMap.mem_toList_iff_getElem?_eq_some.2 entered, same.symm⟩

end SubscriptionTable

namespace Engine

variable {past : List Command} {e : Engine} {p : ConnAck}

theorem resume_renews (connected : e.session.connection = .connected)
    (filled : e.subscriptions.isEmpty = false) (renewable : e.Renewable) (ackTimeout : Duration)
    (live : (e.resume ackTimeout).session.connection = .connected) :
    ∃ out packetId bytes, (e.resume ackTimeout).effects = e.effects ++ out ∧
      .write none (.subscribe { packetId, filters := e.subscriptions.filters }) bytes ∈ out := by
  obtain ⟨link, timers, lastTimerId, lastOutgoing, replayed, same, -, resumed⟩ | gone :=
    e.resume_cases ackTimeout
  · let d := e.caughtUp link timers lastTimerId lastOutgoing replayed
    have renews : d.Renewable ↔ e.Renewable :=
      renewable_caughtUp same timers lastTimerId lastOutgoing replayed
    have here : d.session.connection = .connected := connected
    rw [resumed] at live ⊢
    obtain gone | ⟨renewed, he, -, ⟨-, packetId, bytes, sent⟩ | ⟨blocked, -⟩⟩ :=
      resubscribe_renews here filled
    · rw [drainBacklog_of_unconnected gone] at live
      exact absurd live gone
    · obtain ⟨drained, he', -⟩ := d.resubscribe.drainBacklog_subscribes
      refine ⟨replayed ++ renewed ++ drained, packetId, bytes, ?_, ?_⟩
      · rw [he', he]
        simp only [d, caughtUp, List.append_assoc]
      · rw [sent]
        exact List.mem_append_left _ (List.mem_append_right _ List.mem_cons_self)
    · exact absurd (renews.2 renewable) blocked
  · exact absurd live gone

theorem Reachable.renews (h : Reachable past e) (connecting : e.session.connection = .connecting)
    (again : e.connectCall = none) (success : p.code = .success)
    (filled : e.subscriptions.isEmpty = false) (renewable : e.Renewable)
    (live : (e.handle (.incoming e.epoch (.connAck p))).session.connection = .connected) :
    ∃ out packetId bytes,
      (e.handle (.incoming e.epoch (.connAck p))).effects = e.effects ++ out ∧
      .write none (.subscribe { packetId, filters := e.subscriptions.filters }) bytes ∈ out := by
  have settled := h.accounted.settled
  obtain ⟨config, configured⟩ :=
    Option.isSome_iff_exists.1 (settled.posture.config_isSome (by simp [connecting]))
  obtain ⟨timers, lastTimerId, stableAfter, -, ⟨call, called, -⟩ | ⟨-, he⟩⟩ :=
    connected_cases (e := e.welcomed) configured (settled.unarmed connecting) p
  · cases again.symm.trans called
  · let m := (e.welcomed.established config p timers lastTimerId).supervise none stableAfter
    have resumed : e.handle (.incoming e.epoch (.connAck p)) = m.resume config.ackTimeout :=
      (settled.handle_connAck connecting success).trans he
    have renews : m.Renewable ↔ e.Renewable :=
      renewable_congr (Session.nextPacketId_congr rfl rfl fun _ => rfl) rfl rfl
    rw [resumed] at live ⊢
    exact resume_renews (e := m) rfl filled (renews.2 renewable) config.ackTimeout live

end Engine

namespace SubscriptionTable

/-- The table lists the filters that stand, each once and by ascending paths, without their options
but the quality of service; these are the filters that were given if and only if each that stands
has its other options as they are by default. The request of a new connection lists the same. -/
theorem filters_ofOperations (ops : List (Operation HandlerId)) :
    let t := ofOperations ops
    t.filters.Pairwise (fun f g => f.path < g.path) ∧
      (∀ f, f ∈ t.filters ↔ ∃ g handler, Stands ops g handler ∧ f = g.remembered) ∧
      ((∀ f, f ∈ t.filters ↔ ∃ handler, Stands ops f handler) ↔
        ∀ f handler, Stands ops f handler → f.remembered = f) ∧
      ∀ (past : List Command) (e : Engine) (p : ConnAck), Engine.Reachable past e →
        e.session.connection = .connecting → e.connectCall = none → p.code = .success →
        e.subscriptions = t → t.isEmpty = false → e.Renewable →
        let d := e.handle (.incoming e.epoch (.connAck p))
        d.session.connection = .connected → ∃ out packetId bytes, d.effects = e.effects ++ out ∧
          .write none (.subscribe { packetId, filters := t.filters }) bytes ∈ out := by
  intro t
  have listed : ∀ f, f ∈ t.filters ↔ ∃ g handler, Stands ops g handler ∧ f = g.remembered := by
    intro f
    rw [mem_filters]
    constructor
    · rintro ⟨s, entered, same⟩
      obtain ⟨g, stands, path, qos⟩ := (get?_ofOperations ops f.path s).1 entered
      exact ⟨g, s.handler, stands, by rw [same, Filter.remembered, path, qos]⟩
    · rintro ⟨g, handler, stands, rfl⟩
      exact ⟨{ qos := g.qos, handler }, (get?_ofOperations ..).2 ⟨g, stands, rfl, rfl⟩, rfl⟩
  refine ⟨t.pairwise_filters, listed, ⟨fun exact f handler stands => ?_, fun plain f => ?_⟩, ?_⟩
  · obtain ⟨g, -, -, same⟩ := (listed f).1 ((exact f).2 ⟨handler, stands⟩)
    rw [same]
    rfl
  · rw [listed]
    constructor
    · rintro ⟨g, handler, stands, rfl⟩
      exact ⟨handler, (plain g handler stands).symm ▸ stands⟩
    · rintro ⟨handler, stands⟩
      exact ⟨f, handler, stands, (plain f handler stands).symm⟩
  · intro past e p reached connecting again success table filled renewable d live
    rw [← table] at filled ⊢
    exact reached.renews connecting again success filled renewable live

def foreign : Filter := { path := "a", qos := .atMostOnce, noLocal := true }

/-- The broker grants a subscription to that filter; then the connection is lost, and another is
about to be accepted. -/
def estranged : List Command :=
  [.connect 0 (Engine.bounded 100), .opened 1 (.ok none),
    .incoming 1 (.connAck Engine.freshSession), .call (.subscribe 1 { filters := [foreign] } 0),
    .incoming 1 (.subAck { packetId := 1, returnCodes := [.success .atMostOnce] }),
    .networkDown 1 .connectionClosed, .timer .reconnect 4, .opened 3 (.ok none)]

theorem filters_estranged :
    let t := ofOperations [.insert foreign 0]
    let e := estranged.foldl Engine.handle {}
    let d := e.handle (.incoming e.epoch (.connAck Engine.freshSession))
    (∀ f, f ∈ t.filters ↔ ∃ g handler, Stands [.insert foreign 0] g handler ∧ f = g.remembered) ∧
      d.session.connection = .connected ∧ ∃ out packetId bytes, d.effects = e.effects ++ out ∧
        .write none (.subscribe { packetId, filters := t.filters }) bytes ∈ out := by
  obtain ⟨-, listed, -, renews⟩ := filters_ofOperations [.insert foreign 0]
  have connected : ((estranged.foldl Engine.handle {}).handle (.incoming
      (estranged.foldl Engine.handle {}).epoch (.connAck Engine.freshSession))).session.connection
      = .connected := by decide +kernel
  have renewable : (estranged.foldl Engine.handle {}).Renewable :=
    ⟨2, { maxOutgoing := 100 }, by decide +kernel, by decide +kernel, ⟨_, rfl⟩, by decide +kernel⟩
  exact ⟨listed, connected, renews estranged _ Engine.freshSession
    (Engine.reachable_of_isRun (by decide +kernel)) (by decide +kernel) (by decide +kernel) rfl rfl
    (by decide +kernel) renewable connected⟩

/-- A filter that does not want the messages of its own client is remembered as one that wants
them. -/
theorem not_mem_filters :
    ¬ ∀ (ops : List (Operation HandlerId)) (f : Filter),
      f ∈ (ofOperations ops).filters ↔ ∃ handler, Stands ops f handler := by
  intro exact
  have stands : Stands [.insert foreign (0 : HandlerId)] foreign 0 :=
    ⟨[], [], rfl, List.forall_mem_nil _⟩
  have forgotten : foreign ∉ (ofOperations [.insert foreign (0 : HandlerId)]).filters := by
    decide +kernel
  exact forgotten ((exact _ foreign).2 ⟨0, stands⟩)

end SubscriptionTable

end MqttClient
