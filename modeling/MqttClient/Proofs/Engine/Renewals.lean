import Mathlib.Data.List.Perm.Subperm
import MqttClient.Proofs.Engine.Resubscription

/-! How many requests for the subscriptions of the table are open at once. A connection that is
accepted again takes up those that were never answered and makes one of its own, so that they add up
while connections are lost before the broker answers. Nothing else opens one. -/

namespace MqttClient

/-- The request for the subscriptions of the table, which no call waits for. -/
def Pending.isRenewal : Pending → Bool
  | resubscribe _ => true
  | _ => false

theorem Pending.isRenewal_iff {p : Pending} :
    p.isRenewal = true ↔ ∃ paths, p = .resubscribe paths := by
  cases p <;> simp [isRenewal]

namespace Engine

/-- The identifiers of the open requests for the subscriptions of the table. -/
def renewals (e : Engine) : List UInt16 := (e.pending.toList.filter (·.2.isRenewal)).map (·.1)

/-- The command brings the acceptance of a connection after the first, and there are subscriptions
to be made anew. -/
def isReturn (e : Engine) : Command → Bool
  | .incoming epoch (.connAck p) =>
    epoch == e.epoch && e.session.connection == .connecting && p.code == .success &&
      e.connectCall.isNone && !e.subscriptions.isEmpty
  | _ => false

/-- The run goes on, over that many connections that were accepted again. -/
inductive Returns (past₀ : List Command) (e₀ : Engine) : Nat → List Command → Engine → Prop
  | refl : Returns past₀ e₀ 0 past₀ e₀
  | handle {n past e c} : Returns past₀ e₀ n past e → Possible past e c →
    Returns past₀ e₀ (n + if e.isReturn c then 1 else 0) (past ++ [c]) (e.handle c)
  | drift {n past e d} : Returns past₀ e₀ n past e → Drifts e d → Returns past₀ e₀ n past d

def Sheds (e d : Engine) : Prop :=
  ∀ (k : UInt16) (paths : List String), d.pending[k]? = some (.resubscribe paths) →
    e.pending[k]? = some (.resubscribe paths)

section

variable {past past₀ : List Command} {e e₀ d f m : Engine} {c : Command} {k : UInt16} {n : Nat}
  {p : ConnAck}

theorem mem_renewals : k ∈ e.renewals ↔ ∃ paths, e.pending[k]? = some (.resubscribe paths) := by
  simp only [renewals, List.mem_map, List.mem_filter, Prod.exists, exists_and_right,
    exists_eq_right, Std.TreeMap.mem_toList_iff_getElem?_eq_some, Pending.isRenewal_iff]
  constructor
  · rintro ⟨_, held, paths, rfl⟩
    exact ⟨paths, held⟩
  · rintro ⟨paths, held⟩
    exact ⟨_, held, paths, rfl⟩

theorem nodup_renewals (e : Engine) : e.renewals.Nodup := by
  have keys : (e.pending.toList.map (·.1)).Nodup := by
    rw [List.Nodup, List.pairwise_map]
    refine e.pending.distinct_keys_toList.imp fun distinct same => distinct ?_
    rw [same]
    exact Std.ReflCmp.compare_self
  exact keys.sublist (List.filter_sublist.map _)

theorem Sheds.refl (e : Engine) : Sheds e e := fun _ _ => id

theorem Sheds.trans (h : Sheds e m) (h' : Sheds m d) : Sheds e d :=
  fun k paths held => h k paths (h' k paths held)

theorem Sheds.of_eq (h : d.pending = e.pending) : Sheds e d := fun _ _ held => h ▸ held

theorem Sheds.subset (h : Sheds e d) : d.renewals ⊆ e.renewals := by
  intro k hk
  obtain ⟨paths, held⟩ := mem_renewals.1 hk
  exact mem_renewals.2 ⟨paths, h k paths held⟩

theorem MayWait.old {paths : List String} (waits : e.MayWait c k (.resubscribe paths))
    (other : ¬ c.IsConnAck) : e.pending[k]? = some (.resubscribe paths) := by
  obtain old | ⟨call, -, same⟩ | ⟨accepts, -⟩ := waits
  · exact old
  · cases call <;> cases same
  · exact absurd accepts other

theorem Step.sheds (h : Step c e d) (other : ¬ c.IsConnAck) : Sheds e d := by
  intro k paths held
  cases h with
  | does does => exact MayWait.old (does.pending held) other
  | links => exact held
  | parts parts => exact MayWait.old (parts.pending held) other

theorem sheds_of_steps (h : Steps c e d) (other : ¬ c.IsConnAck) : Sheds e d := by
  induction h with
  | refl => exact .refl e
  | tail _ step ih => exact ih.trans (step.sheds other)

theorem Progress.sheds (h : Progress c e d) (other : ¬ c.IsConnAck) : Sheds e d := by
  obtain ⟨m, hears, steps⟩ | parts | ⟨config, p, m, accepts, -⟩ := h
  · exact (Sheds.of_eq hears.pending_eq).trans (sheds_of_steps steps other)
  · exact (Step.parts parts).sheds other
  · exact absurd ⟨_, p, accepts.asked⟩ other

theorem pending_of_connectionLost {q : Pending} {cause : ConnectionError}
    (held : (e.connectionLost cause).pending[k]? = some q) : e.pending[k]? = some q := by
  obtain ⟨effects, -, torn⟩ := e.teardown_eq
  have gone : ∀ d : Engine, ∀ err, ((d.failAll err).cleanSession).pending[k]? ≠ some q := by
    intro d err
    rw [failAll_eq]
    exact fun held => nomatch (Std.TreeMap.getElem?_emptyc (a := k)).symm.trans held
  unfold connectionLost at held
  split at held
  · exact held
  · dsimp only at held
    split at held
    · exact absurd held (gone _ _)
    · rw [torn] at held
      exact held
    · exact absurd held (gone e.teardown (.connectionLost cause))

theorem sheds_connectionLost (e : Engine) (cause : ConnectionError) :
    Sheds e (e.connectionLost cause) :=
  fun _ _ => pending_of_connectionLost

theorem sheds_sendDisconnect (e : Engine) (reason : DisconnectReason) :
    Sheds e (e.sendDisconnect reason) := by
  obtain he | ⟨link, room, bytes, -, he⟩ := e.sendDisconnect_cases reason
  all_goals rw [he]
  · exact .refl e
  · exact .of_eq rfl

theorem sheds_refused (quiet : e.session.events = [])
    (refused : ¬ (e.session.connection = .connecting ∧ p.code = .success)) :
    Sheds e (e.incoming (.connAck p)) := by
  let arrived : Session := { e.session with lastIncoming := e.now }
  rw [incoming]
  by_cases connecting : e.session.connection = .connecting
  · have other : p.code ≠ .success := fun success => refused ⟨connecting, success⟩
    have heard : e.session.receive e.now (.connAck p) =
        (({ arrived with connection := .disconnected } : Session).push (.rejected p),
          .ok none) := by
      simp [arrived, Session.receive, Session.receiveConnAck, connecting, other]
    have told := handleEvents_eq (s := { arrived with connection := .disconnected }) quiet quiet
      [.rejected p]
    rw [heard]
    change Sheds e (e.withSession { arrived with
      connection := .disconnected, events := e.session.events ++ [.rejected p] }).handleEvents
    rw [told]
    exact (Sheds.of_eq rfl).trans (sheds_connectionLost _ _)
  · have heard : e.session.receive e.now (.connAck p) = (arrived, .error .wrongPacket) := by
      simp [arrived, Session.receive, Session.receiveConnAck, connecting]
    have noted : Sheds e (e.withSession arrived) := .of_eq rfl
    rw [heard]
    exact (noted.trans (sheds_sendDisconnect _ _)).trans (sheds_connectionLost _ _)

theorem sheds_replayAll (e : Engine) (ackTimeout : Duration) (packets : List Packet) :
    Sheds e (e.replayAll ackTimeout packets).1 := by
  induction packets generalizing e with
  | nil => exact .refl e
  | cons packet rest ih =>
    rw [replayAll]
    obtain ⟨link, bytes, -, -, -, he⟩ | ⟨link, err, -, -, he⟩ | ⟨-, err, -, he⟩ :=
      e.write_cases packet
    all_goals simp only [he]
    · exact (Sheds.of_eq rfl).trans (ih _)
    all_goals exact sheds_connectionLost e _

theorem pending_of_transmit {packet : Packet} {q r : Pending} {j : UInt16}
    (held : (e.transmit k packet q).pending[j]? = some r) : j = k ∨ e.pending[j]? = some r := by
  let waiting : Engine := { e with pending := e.pending.insert k q }
  have inserted : waiting.pending[j]? = some r → j = k ∨ e.pending[j]? = some r := by
    simp only [waiting, Std.TreeMap.getElem?_insert, Std.LawfulEqCmp.compare_eq_iff_eq]
    split
    · next same => exact fun _ => .inl same.symm
    · exact .inr
  obtain ⟨link, bytes, -, -, -, he⟩ | ⟨link, err, -, -, he⟩ | ⟨-, err, ne, he⟩ :=
    waiting.write_cases packet
  · rw [transmit_of_ok he] at held
    exact inserted held
  · rw [transmit_of_encoding he, dropPending_eq] at held
    simp only [erasePending, Engine.forget, withSession, Std.TreeMap.getElem?_erase] at held
    split at held
    · cases held
    · exact inserted held
  · rw [transmit_of_error he ne] at held
    exact inserted (pending_of_connectionLost held)

theorem renewals_resubscribe (e : Engine) : ∃ k, e.resubscribe.renewals ⊆
    (if e.subscriptions.isEmpty then [] else [k]) ++ e.renewals := by
  unfold resubscribe
  cases e.subscriptions.isEmpty with
  | true => exact ⟨0, List.Subset.refl _⟩
  | false =>
    simp only [Bool.false_eq_true, if_false, Session.send]
    split
    · next s packet _ =>
      refine ⟨packetIdOf packet, fun j hj => ?_⟩
      obtain ⟨paths, held⟩ := mem_renewals.1 hj
      obtain rfl | old := pending_of_transmit held
      · exact List.mem_cons_self
      · exact List.mem_cons_of_mem _ (mem_renewals.2 ⟨paths, old⟩)
    · next s err _ => exact ⟨0, List.subset_cons_of_subset _ (Sheds.of_eq rfl).subset⟩

theorem sheds_drainBacklog (e : Engine) : Sheds e e.drainBacklog :=
  sheds_of_steps (steps_drainBacklog (.cancel 0) e) (by rintro ⟨_, _, ⟨⟩⟩)

theorem renewals_resume (e : Engine) (ackTimeout : Duration) : ∃ k, (e.resume ackTimeout).renewals ⊆
    (if e.subscriptions.isEmpty then [] else [k]) ++ e.renewals := by
  let taken := e.withSession (e.session.replay e.now).1
  have replayed : Sheds e (taken.replayAll ackTimeout (e.session.replay e.now).2).1 :=
    (Sheds.of_eq rfl).trans (taken.sheds_replayAll ackTimeout _)
  obtain ⟨link, timers, lastTimerId, lastOutgoing, out, he, -, -⟩ | ⟨d, he, -⟩ :=
    taken.replayAll_cases ackTimeout (e.session.replay e.now).2
  all_goals rw [he] at replayed
  · rw [resume_of_replayed he]
    obtain ⟨k, renewed⟩ :=
      renewals_resubscribe (e.caughtUp link timers lastTimerId lastOutgoing out)
    refine ⟨k, fun j hj => ?_⟩
    have known := renewed ((sheds_drainBacklog _).subset hj)
    exact List.mem_append.2 ((List.mem_append.1 known).imp_right fun old => replayed.subset old)
  · rw [resume_of_lost he]
    exact ⟨0, List.subset_append_of_subset_right _ replayed.subset⟩

theorem Reachable.renewals_handle (h : Reachable past e) (possible : Possible past e c) :
    ∃ k, (e.handle c).renewals ⊆ (if e.isReturn c then [k] else []) ++ e.renewals := by
  have settled := h.accounted.settled
  have kept : ∀ {d : Engine}, Sheds e d →
      ∃ k, d.renewals ⊆ (if e.isReturn c then [k] else []) ++ e.renewals := fun sheds =>
    ⟨0, List.subset_append_of_subset_right _ sheds.subset⟩
  by_cases answers : c.IsConnAck
  · obtain ⟨epoch, p, rfl⟩ := answers
    by_cases current : epoch = e.epoch
    · subst current
      by_cases accepted : e.session.connection = .connecting ∧ p.code = .success
      · obtain ⟨connecting, success⟩ := accepted
        obtain ⟨config, configured⟩ :=
          Option.isSome_iff_exists.1 (settled.posture.config_isSome (by simp [connecting]))
        rw [settled.handle_connAck connecting success]
        obtain ⟨timers, lastTimerId, stableAfter, -, ⟨call, -, he⟩ | ⟨again, he⟩⟩ :=
          connected_cases (e := e.welcomed) configured (settled.unarmed connecting) p
        all_goals rw [he]
        · exact kept (.of_eq rfl)
        · have unasked : e.connectCall = none := again
          have returns : e.isReturn (.incoming e.epoch (.connAck p))
              = !e.subscriptions.isEmpty := by
            simp [isReturn, connecting, success, unasked]
          obtain ⟨k, renewed⟩ := renewals_resume
            ((e.welcomed.established config p timers lastTimerId).supervise none stableAfter)
            config.ackTimeout
          refine ⟨k, ?_⟩
          rw [returns]
          change _ ⊆ (if e.subscriptions.isEmpty then [] else [k]) ++ e.renewals at renewed
          cases filled : e.subscriptions.isEmpty <;> simpa [filled] using renewed
      · rw [Engine.handle, if_pos rfl]
        exact kept (sheds_refused settled.ledger.events_eq accepted)
    · rw [Engine.handle, if_neg current]
      exact kept (.refl e)
  · exact kept ((h.progress possible).sheds answers)

theorem Reachable.length_renewals_handle (h : Reachable past e) (possible : Possible past e c) :
    (e.handle c).renewals.length ≤ e.renewals.length + if e.isReturn c then 1 else 0 := by
  obtain ⟨k, renewed⟩ := h.renewals_handle possible
  have le := ((nodup_renewals _).subperm renewed).length_le
  rw [List.length_append, Nat.add_comm] at le
  split <;> simp_all

theorem Drifts.renewals_eq (h : Drifts e d) : d.renewals = e.renewals := by
  cases h <;> rfl

theorem Returns.leads (h : Returns past₀ e₀ n past e) : Leads past₀ e₀ past e := by
  induction h with
  | refl => exact .refl
  | handle _ possible ih => exact ih.handle possible
  | drift _ drifts ih => exact ih.drift drifts

/-- In every run the connections that were accepted again can be counted. -/
theorem Leads.exists_returns (h : Leads past₀ e₀ past e) : ∃ n, Returns past₀ e₀ n past e := by
  induction h with
  | refl => exact ⟨0, .refl⟩
  | handle _ possible ih =>
    obtain ⟨n, returns⟩ := ih
    exact ⟨_, returns.handle possible⟩
  | drift _ drifts ih =>
    obtain ⟨n, returns⟩ := ih
    exact ⟨n, returns.drift drifts⟩

def returns (e : Engine) : List Command → Nat
  | [] => 0
  | c :: rest => (if e.isReturn c then 1 else 0) + (e.handle c).returns rest

theorem Returns.append {cs : List Command} (h : Returns past₀ e₀ n past e)
    (run : isRun past e cs = true) :
    Returns past₀ e₀ (n + e.returns cs) (past ++ cs) (cs.foldl Engine.handle e) := by
  induction cs generalizing past e n with
  | nil => rwa [List.append_nil]
  | cons c rest ih =>
    rw [isRun, Bool.and_eq_true] at run
    have next := ih (h.handle (possible_of_isPossible run.1)) run.2
    rwa [List.append_assoc, Nat.add_assoc] at next

end

/-- However connections are lost, each that is accepted again adds at most one request for the
subscriptions of the table to those that are open, and nothing else adds any. Each is a transaction
that waits for the answer to a subscription. -/
theorem length_renewals_le {past₀ past : List Command} {e₀ e : Engine} {n : Nat}
    (h : Reachable past₀ e₀) (run : Returns past₀ e₀ n past e) :
    e.renewals.length ≤ e₀.renewals.length + n ∧
      ∀ k ∈ e.renewals, ∃ t, e.session.outgoing[k]? = some t ∧ t.phase = .subscribing := by
  constructor
  · induction run with
    | refl => exact Nat.le_refl _
    | @handle n past e c run possible ih =>
      have le := (run.leads.reachable h).length_renewals_handle possible
      omega
    | drift _ drifts ih => exact drifts.renewals_eq ▸ ih
  · intro k hk
    obtain ⟨paths, held⟩ := mem_renewals.1 hk
    have agrees := (run.leads.reachable h).accounted.settled.ledger.agrees k
    rw [held] at agrees
    cases ht : e.session.outgoing[k]? with
    | none => rw [ht] at agrees; exact absurd agrees id
    | some t => rw [ht] at agrees; exact ⟨t, rfl, agrees⟩

/-- The broker grants a subscription. Then the connection is lost and accepted again twice, the
second time before the broker answers the request of the first. -/
def flapping : List Command :=
  [.connect 0 (bounded 100), .opened 1 (.ok none), .incoming 1 (.connAck freshSession),
    .call (.subscribe 1 { filters := [{ path := "a", qos := .atMostOnce }] } 0),
    .incoming 1 (.subAck { packetId := 1, returnCodes := [.success .atMostOnce] }),
    .networkDown 1 .connectionClosed, .timer .reconnect 4, .opened 3 (.ok none),
    .incoming 3 (.connAck freshSession), .networkDown 3 .connectionClosed, .timer .reconnect 8,
    .opened 5 (.ok none), .incoming 5 (.connAck freshSession)]

theorem length_renewals_flapping :
    let e := flapping.foldl handle {}
    Returns [] {} 2 flapping e ∧ e.renewals.length ≤ 0 + 2 ∧
      ∀ k ∈ e.renewals, ∃ t, e.session.outgoing[k]? = some t ∧ t.phase = .subscribing := by
  have two : returns {} flapping = 2 := by decide +kernel
  have run : Returns [] {} (0 + returns {} flapping) ([] ++ flapping) (flapping.foldl handle {}) :=
    Returns.refl.append (by decide +kernel)
  rw [two] at run
  exact ⟨run, length_renewals_le .start run⟩

theorem not_length_renewals_le_one :
    ¬ ∀ past e, Reachable past e → e.renewals.length ≤ 1 := by
  intro within
  have le := within flapping (flapping.foldl handle {}) (reachable_of_isRun (by decide +kernel))
  have two : (flapping.foldl handle {}).renewals = [2, 3] := by decide +kernel
  rw [two] at le
  exact absurd le (by decide)

end Engine

end MqttClient
