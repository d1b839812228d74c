import MqttClient.Proofs.Engine.Lifetime
import MqttClient.Proofs.Wire.RoundTrip

/-! The subscriptions of the table on a new connection. The packets of open transactions fit every
connection of their configuration, so that a connection whose other end is there survives its
acceptance. All filters of the table go into one request: it goes out if there is an identifier for
it and it is not too long, and otherwise only what was open or held back subscribes. -/

namespace MqttClient

def Packet.subscribes (f : String) : Packet → Bool
  | .subscribe p => f ∈ p.filters.map (·.path)
  | _ => false

def Effect.subscribes (f : String) (x : Effect) : Bool := x.packet?.any (Packet.subscribes f)

theorem any_subscribes (f : String) (out : List Effect) :
    out.any (Effect.subscribes f) = (out.filterMap Effect.packet?).any (Packet.subscribes f) := by
  rw [List.any_filterMap]
  rfl

def Call.subscribes (f : String) : Call → Bool
  | subscribe _ p _ => f ∈ p.filters.map (·.path)
  | _ => false

theorem Packet.subscribes_iff {f : String} {packet : Packet} :
    packet.subscribes f = true ↔ ∃ p, packet = .subscribe p ∧ f ∈ p.filters.map (·.path) := by
  cases packet <;> simp [subscribes]

theorem Packet.isSubscription_of_subscribes {f : String} {packet : Packet}
    (h : packet.subscribes f = true) : packet.isSubscription = true := by
  obtain ⟨p, rfl, -⟩ := subscribes_iff.1 h
  rfl

theorem Call.subscribes_of_carries {f : String} {call : Call} {packet : Packet}
    (carries : call.Carries packet) (h : packet.subscribes f = true) :
    call.subscribes f = true := by
  cases call with
  | publish =>
    obtain ⟨k, dup, rfl, -⟩ := carries
    cases h
  | subscribe =>
    obtain ⟨k, rfl⟩ := carries
    exact h
  | unsubscribe =>
    obtain ⟨k, rfl⟩ := carries
    cases h

theorem Transaction.subscribes_resend {t : Transaction} {k : UInt16} (fits : t.Fits k)
    (f : String) : t.resend.subscribes f = t.packet.subscribes f := by
  obtain ⟨p, -, hp, -, -, he⟩ | ⟨p, -, hp, -, he⟩ | ⟨p, -, hp, -, he⟩ | ⟨p, -, hp, -, he⟩ :=
    fits.resend_cases
  all_goals rw [he, hp]
  · rfl
  · rfl

namespace Session

theorem firstFree_congr {s s' : Session}
    (held : ∀ k : UInt16, s'.outgoing.contains k = s.outgoing.contains k) (fuel : Nat)
    (last : UInt16) : s'.firstFree fuel last = s.firstFree fuel last := by
  induction fuel generalizing last with
  | zero => rfl
  | succ fuel ih => simp only [firstFree, held, ih]

theorem nextPacketId_congr {s s' : Session} (last : s'.lastPacketId = s.lastPacketId)
    (inflight : s'.inflight = s.inflight)
    (held : ∀ k : UInt16, s'.outgoing.contains k = s.outgoing.contains k) :
    s'.nextPacketId = s.nextPacketId := by
  simp only [nextPacketId, inflight, last, firstFree_congr held]

end Session

theorem SubscriptionTable.mem_paths {t : SubscriptionTable HandlerId} {f : String}
    (h : t.contains f = true) : f ∈ t.filters.map (·.path) := by
  obtain ⟨s, hs⟩ := Option.isSome_iff_exists.1
    (Std.TreeMap.isSome_getElem?_iff_mem.2 (Std.TreeMap.contains_iff_mem.1 h))
  have hm : (f, s) ∈ t.entries.toList := Std.TreeMap.mem_toList_iff_getElem?_eq_some.2 hs
  simp only [filters, List.map_map, List.mem_map]
  exact ⟨(f, s), hm, rfl⟩

theorem Link.takes_resend {l : Link} {t : Transaction} {k : UInt16} (fits : t.Fits k)
    (h : l.Takes t.packet) : l.Takes t.resend := by
  obtain ⟨p, -, hp, -, -, he⟩ | ⟨p, -, hp, qos, he⟩ | ⟨p, -, hp, -, he⟩ | ⟨p, -, hp, -, he⟩ :=
    fits.resend_cases
  all_goals rw [hp] at h
  all_goals rw [he]
  · obtain ⟨⟨bytes, hb⟩, le⟩ := h
    obtain ⟨checked, short, body, hbody, -⟩ := Packet.encode_eq_ok.1 hb
    exact ⟨⟨_, Packet.encode_eq_ok.2 ⟨checked, short, body, hbody, rfl⟩⟩, le⟩
  · have long : 4 ≤ p.bodySize := by
      simp only [Publish.bodySize, qos]
      grind
    have le : 1 + VarInt.size p.bodySize + p.bodySize ≤ l.maxOutgoing := h.2
    have room := VarInt.size_pos p.bodySize
    refine ⟨⟨_, Packet.encode_eq_ok.2 ⟨Packet.nonzeroId_eq_ok.2 fits.ne_zero, ?_, _, rfl, rfl⟩⟩, ?_⟩
    · exact Nat.le_of_ble_eq_true rfl
    · change 4 ≤ l.maxOutgoing
      omega
  · exact h
  · exact h

namespace Engine

variable {past : List Command} {e d m : Engine} {c : Command}

/-- There is a connection when there should be, its limit is the configured one, and every open
transaction holds a packet within that limit. -/
structure Fitting (e : Engine) : Prop where
  linked : e.session.connection = .connected → e.link.isSome
  limit : ∀ link, e.link = some link → e.config.map Config.maxOutgoing = some link.maxOutgoing
  takes : ∀ {k : UInt16} {t : Transaction}, e.session.outgoing[k]? = some t →
    ∃ config, e.config = some config ∧ Link.Takes { maxOutgoing := config.maxOutgoing } t.packet

theorem Fitting.takes_of_sends (h : Fitting e) {packet : Packet} (sends : e.Sends packet) :
    ∃ config, e.config = some config ∧
      Link.Takes { maxOutgoing := config.maxOutgoing } packet := by
  obtain ⟨connected, takes⟩ := sends
  obtain ⟨link, linked⟩ := Option.isSome_iff_exists.1 (h.linked connected)
  obtain ⟨config, configured, same⟩ := Option.map_eq_some_iff.1 (h.limit link linked)
  exact ⟨config, configured, (takes link linked).congr same⟩

theorem Persists.fitting (h : Persists c e d) (before : Fitting e) : Fitting d where
  linked connected := by
    have linked := before.linked (h.connected connected)
    have same := congrArg Option.isSome h.maxOutgoing_eq
    rw [Option.isSome_map, Option.isSome_map] at same
    exact same.trans linked
  limit link linked := by
    have same := h.maxOutgoing_eq
    rw [linked, Option.map_some, eq_comm, Option.map_eq_some_iff] at same
    obtain ⟨link', linked', same⟩ := same
    rw [h.config_eq, before.limit link' linked', same]
  takes ht := by
    rw [h.config_eq]
    obtain ⟨u, hu, same⟩ | sends := h.outgoing ht
    · exact same ▸ before.takes hu
    · exact before.takes_of_sends sends

theorem Parts.fitting (h : Parts c e d) (before : Fitting e) : Fitting d where
  linked connected := absurd connected h.connection_ne
  limit link linked := by cases h.link_eq.symm.trans linked
  takes ht := by
    obtain ⟨config, ⟨u, hu, same⟩ | sends⟩ := h.outgoing ht
    · exact config ▸ same ▸ before.takes hu
    · exact config ▸ before.takes_of_sends sends

theorem Step.fitting (h : Step c e d) (before : Fitting e) : Fitting d := by
  cases h with
  | does does => exact does.toPersists.fitting before
  | links room configured =>
    refine ⟨fun _ => rfl, fun link linked => ?_, before.takes⟩
    cases linked
    simp [configured]
  | parts parts => exact parts.fitting before

theorem fitting_of_steps (h : Steps c e d) (before : Fitting e) : Fitting d := by
  induction h with
  | refl => exact before
  | tail _ step ih => exact step.fitting ih

theorem Drifts.fitting (h : Drifts e d) (before : Fitting e) : Fitting d := by
  cases h with
  | room room =>
    refine ⟨fun connected => ?_, fun link linked => ?_, before.takes⟩
    · rw [Option.isSome_map]
      exact before.linked connected
    · obtain ⟨link', linked', rfl⟩ := Option.map_eq_some_iff.1 linked
      exact before.limit link' linked'
  | _ => exact ⟨before.linked, before.limit, before.takes⟩

theorem Reachable.fitting (h : Reachable past e) : Fitting e := by
  induction h using Reachable.course_induction with
  | start =>
    refine ⟨nofun, nofun, fun {k t} ht => ?_⟩
    cases (Std.TreeMap.getElem?_emptyc (a := k)).symm.trans ht
  | @handle past e c reached possible _ before =>
    obtain ⟨m, heard, steps⟩ | parts | ⟨config, p, m, accepts, steps⟩ := reached.progress possible
    · exact fitting_of_steps steps (heard.toPersists.fitting before)
    · exact parts.fitting before
    · refine fitting_of_steps steps ⟨fun _ => ?_, ?_, ?_⟩
      · have opened := possible.connected _ _ accepts.asked
        rw [accepts.link_eq]
        exact reached.accounted.settled.posture.link_isSome_of_opened accepts.connecting opened
      · rw [accepts.link_eq, accepts.config_eq]
        exact before.limit
      · intro k t ht
        rw [accepts.outgoing_eq] at ht
        exact accepts.config_eq ▸ before.takes ht
  | drift _ drifts before => exact drifts.fitting before

/-- The connection is up, and every write within the limit gets through. -/
structure Whole (limit : Nat) (e : Engine) : Prop where
  connected : e.session.connection = .connected
  link_eq : e.link = some { maxOutgoing := limit }

section

variable {limit : Nat}

theorem Whole.of_eq (h : Whole limit e) (connection : d.session.connection = e.session.connection)
    (link : d.link = e.link) : Whole limit d :=
  ⟨connection.trans h.connected, link.trans h.link_eq⟩

theorem Whole.write (h : Whole limit e) (packet : Packet) :
    (∃ d, e.write packet = (d, .ok ()) ∧ Whole limit d) ∨
    (¬ Link.Takes { maxOutgoing := limit } packet ∧
      ∃ err, e.write packet = (e, .error (.encoding err))) := by
  obtain ⟨link, bytes, linked, -, -, he⟩ | ⟨link, err, linked, refuses, he⟩ | ⟨stuck, -⟩ :=
    e.write_cases packet
  · cases linked.symm.trans h.link_eq
    exact .inl ⟨_, he, h.connected, rfl⟩
  · cases linked.symm.trans h.link_eq
    exact .inr ⟨refuses, err, he⟩
  · cases (stuck _ h.link_eq).2

theorem Whole.transmit (h : Whole limit e) (k : UInt16) (packet : Packet) (p : Pending) :
    Whole limit (e.transmit k packet p) := by
  have waiting : Whole limit { e with pending := e.pending.insert k p } := h.of_eq rfl rfl
  obtain ⟨d, he, whole⟩ | ⟨-, err, he⟩ := waiting.write packet
  · rw [transmit_of_ok he]
    exact whole.of_eq rfl rfl
  · rw [transmit_of_encoding he, dropPending_eq]
    exact h.of_eq rfl rfl

theorem Whole.sendUnacknowledged (h : Whole limit e) (call : CallId) (packet : Packet) :
    Whole limit (e.sendUnacknowledged call packet) := by
  unfold Engine.sendUnacknowledged
  obtain ⟨d, he, whole⟩ | ⟨-, err, he⟩ := h.write packet
  all_goals rw [he]
  · exact whole.of_eq rfl rfl
  · exact h.of_eq rfl rfl

theorem Whole.sendCall (h : Whole limit e) (call : Call) : Whole limit (e.sendCall call) := by
  obtain ⟨id, p, -, he⟩ | ⟨k, packet, phase, -, -, he⟩ | he := e.sendCall_forms h.connected call
  all_goals rw [he]
  · exact h.sendUnacknowledged id _
  · have opened : Whole limit ({ e with subscriptions := call.enter e.subscriptions }.withSession
        (e.session.track e.now k packet phase)) := h.of_eq rfl rfl
    exact opened.transmit k packet call.pending
  · exact h.of_eq rfl rfl

theorem Whole.drainBacklog (h : Whole limit e) : Whole limit e.drainBacklog := by
  refine drainLoop_induction (motive := Whole limit) e.backlog.length h
    fun d call rest whole _ _ _ => ?_
  have popped : Whole limit { d with backlog := rest } := whole.of_eq rfl rfl
  exact popped.sendCall call

theorem Whole.resubscribe (h : Whole limit e) : Whole limit e.resubscribe := by
  unfold Engine.resubscribe
  split
  · exact h
  · simp only [Session.send]
    obtain ⟨k, he⟩ | he := Session.start_forms h.connected e.now .subscribing
      fun k => .subscribe { filters := e.subscriptions.filters, packetId := k }
    all_goals rw [he]
    · have opened : Whole limit (e.withSession (e.session.track e.now k
          (.subscribe { filters := e.subscriptions.filters, packetId := k }) .subscribing)) :=
        h.of_eq rfl rfl
      exact opened.transmit _ _ _
    · exact h

theorem Whole.replayAll (h : Whole limit e) (ackTimeout : Duration) {packets : List Packet}
    (takes : ∀ packet ∈ packets, Link.Takes { maxOutgoing := limit } packet) :
    ∃ d, e.replayAll ackTimeout packets = (d, true) ∧ Whole limit d := by
  induction packets generalizing e with
  | nil => exact ⟨e, rfl, h⟩
  | cons packet rest ih =>
    obtain ⟨d, he, whole⟩ | ⟨refuses, -⟩ := h.write packet
    · rw [Engine.replayAll, he]
      exact ih (whole.of_eq rfl rfl) fun packet hm => takes packet (List.mem_cons_of_mem _ hm)
    · exact absurd (takes packet List.mem_cons_self) refuses

theorem Whole.resume (h : Whole limit e) (ackTimeout : Duration) (sound : e.session.IsSound)
    (takes : ∀ {k : UInt16} {t : Transaction}, e.session.outgoing[k]? = some t →
      Link.Takes { maxOutgoing := limit } t.packet) : Whole limit (e.resume ackTimeout) := by
  have again : ∀ packet ∈ (e.session.replay e.now).2,
      Link.Takes { maxOutgoing := limit } packet := by
    intro packet hm
    obtain ⟨k, t, ht, rfl⟩ := Session.mem_replay.1 hm
    exact Link.takes_resend (sound.fits ht) (takes ht)
  have taken : Whole limit (e.withSession (e.session.replay e.now).1) := h.of_eq rfl rfl
  obtain ⟨d, he, whole⟩ := taken.replayAll ackTimeout again
  rw [resume_of_replayed he]
  exact whole.resubscribe.drainBacklog

end

/-- One request for all subscriptions of the table can go out: there is an identifier for it, and
the connection takes it. -/
def Renewable (e : Engine) : Prop :=
  ∃ k link, e.session.nextPacketId = .ok k ∧ e.link = some link ∧
    link.Takes (.subscribe { packetId := k, filters := e.subscriptions.filters })

theorem Renewable.congr (h : e.Renewable)
    (next : d.session.nextPacketId = e.session.nextPacketId)
    (link : d.link.map Link.maxOutgoing = e.link.map Link.maxOutgoing)
    (table : d.subscriptions = e.subscriptions) : d.Renewable := by
  obtain ⟨k, l, free, linked, takes⟩ := h
  rw [linked, Option.map_some, Option.map_eq_some_iff] at link
  obtain ⟨l', linked', same⟩ := link
  exact ⟨k, l', next.trans free, linked', table ▸ takes.congr same⟩

theorem renewable_congr (next : d.session.nextPacketId = e.session.nextPacketId)
    (link : d.link.map Link.maxOutgoing = e.link.map Link.maxOutgoing)
    (table : d.subscriptions = e.subscriptions) : d.Renewable ↔ e.Renewable :=
  ⟨fun h => h.congr next.symm link.symm table.symm, fun h => h.congr next link table⟩

def Pursues (e : Engine) (f : String) : Prop :=
  ∃ (k : UInt16) (t : Transaction), e.session.outgoing[k]? = some t ∧
    t.packet.subscribes f = true

theorem resubscribe_renews (connected : e.session.connection = .connected)
    (filled : e.subscriptions.isEmpty = false) :
    e.resubscribe.session.connection ≠ .connected ∨
    ∃ out, e.resubscribe.effects = e.effects ++ out ∧ e.resubscribe.backlog = e.backlog ∧
      ((e.Renewable ∧ ∃ packetId bytes,
          out = [.write none (.subscribe { packetId, filters := e.subscriptions.filters }) bytes]) ∨
        ¬ e.Renewable ∧ out = []) := by
  have filled' : ¬ e.subscriptions.isEmpty = true := by simp [filled]
  simp only [resubscribe, if_neg filled', Session.send, Session.start, if_pos connected]
  cases hid : e.session.nextPacketId with
  | error err =>
    refine .inr ⟨[], by simp [withSession], rfl, .inr ⟨?_, rfl⟩⟩
    rintro ⟨k, link, free, -⟩
    cases hid.symm.trans free
  | ok k =>
    let request : Packet := .subscribe { packetId := k, filters := e.subscriptions.filters }
    let paths := e.subscriptions.filters.map (·.path)
    let opened := e.withSession (e.session.track e.now k request .subscribing)
    let waiting := e.admitted k request .subscribing (.resubscribe paths)
    change (opened.transmit k request (.resubscribe paths)).session.connection ≠ _ ∨
      ∃ out, (opened.transmit k request (.resubscribe paths)).effects = _ ∧
        (opened.transmit k request (.resubscribe paths)).backlog = _ ∧ _
    obtain ⟨link, bytes, linked, takes, -, he⟩ | ⟨link, err, linked, refuses, he⟩ |
      ⟨-, err, ne, he⟩ := waiting.write_cases request
    · have nobody : waiting.requester request = none := by
        simp [waiting, request, requester, admitted, Pending.call?]
      rw [transmit_of_ok (e := opened) he, nobody]
      exact .inr ⟨_, rfl, rfl, .inl ⟨⟨k, link, hid, linked, takes⟩, k, bytes, rfl⟩⟩
    · rw [transmit_of_encoding (e := opened) he, dropPending_eq]
      refine .inr ⟨[], by simp [waiting, admitted, Pending.call?], rfl, .inr ⟨?_, rfl⟩⟩
      rintro ⟨k', link', free, linked', takes⟩
      cases hid.symm.trans free
      cases linked.symm.trans linked'
      exact refuses takes
    · rw [transmit_of_error (e := opened) he ne]
      left
      rw [connectionLost_connection]
      decide

theorem warrants_of_steps (h : Steps c e d) :
    (∃ out, d.effects = e.effects ++ out ∧ ∀ x ∈ out, e.Warrants c x) ∧
      ∀ call ∈ d.backlog, e.Offers c call := by
  induction h with
  | refl => exact ⟨⟨[], (List.append_nil _).symm, List.forall_mem_nil _⟩, fun _ => .inr⟩
  | @tail d f steps step ih =>
    obtain ⟨⟨out, he, warrants⟩, backlog⟩ := ih
    have next : (∃ out, f.effects = d.effects ++ out ∧ ∀ x ∈ out, d.Warrants c x) ∧
        ∀ call ∈ f.backlog, d.Offers c call := by
      cases step with
      | does does => exact ⟨does.effects, does.backlog⟩
      | links => exact ⟨⟨[], (List.append_nil _).symm, List.forall_mem_nil _⟩, fun _ => .inr⟩
      | parts parts => exact ⟨parts.effects, parts.backlog⟩
    obtain ⟨⟨out', he', warrants'⟩, backlog'⟩ := next
    refine ⟨⟨out ++ out', by rw [he', he, List.append_assoc], ?_⟩, fun call hc => ?_⟩
    · exact List.forall_mem_append.2
        ⟨warrants, fun x hx => warrants_of_backlog backlog (warrants' x hx)⟩
    · exact (backlog' call hc).elim .inl (backlog call)

theorem drainBacklog_subscribes (e : Engine) :
    ∃ out, e.drainBacklog.effects = e.effects ++ out ∧
      ∀ f, out.any (Effect.subscribes f) = true → ∃ call ∈ e.backlog, call.subscribes f = true := by
  -- No command is at hand, so that only the backlog offers calls.
  obtain ⟨⟨out, he, warrants⟩, -⟩ := warrants_of_steps (steps_drainBacklog (.cancel 0) e)
  refine ⟨out, he, fun f hf => ?_⟩
  obtain ⟨x, hx, named⟩ := List.any_eq_true.1 hf
  have warranted := warrants x hx
  cases x with
  | write id packet bytes =>
    obtain accepts | ⟨call, offered, -, carries⟩ :=
      warranted (Packet.isSubscription_of_subscribes named)
    · obtain ⟨epoch, p, same⟩ := accepts
      cases same
    · obtain same | held := offered
      · cases same
      · exact ⟨call, held, Call.subscribes_of_carries carries named⟩
  | _ => cases named

theorem drainBacklog_of_unconnected (gone : e.session.connection ≠ .connected) :
    e.drainBacklog = e := by
  have unconnected : e.isConnected = false := by simpa [isConnected] using gone
  unfold drainBacklog
  cases e.backlog.length <;> simp [drainLoop, unconnected]

theorem any_replay_iff (sound : e.session.IsSound) (f : String) :
    (e.session.replay e.now).2.any (Packet.subscribes f) = true ↔ e.Pursues f := by
  simp only [List.any_eq_true, Session.mem_replay, Pursues]
  constructor
  · rintro ⟨_, ⟨k, t, ht, rfl⟩, named⟩
    exact ⟨k, t, ht, Transaction.subscribes_resend (sound.fits ht) f ▸ named⟩
  · rintro ⟨k, t, ht, named⟩
    exact ⟨_, ⟨k, t, ht, rfl⟩, (Transaction.subscribes_resend (sound.fits ht) f).trans named⟩

def caughtUp (e : Engine) (link : Option Link) (timers : Timers) (lastTimerId : Nat)
    (lastOutgoing : Time) (replayed : List Effect) : Engine :=
  { e with
    link, timers, lastTimerId
    session := { (e.session.replay e.now).1 with lastOutgoing }
    effects := e.effects ++ replayed }

theorem resume_cases (e : Engine) (ackTimeout : Duration) :
    (∃ link timers lastTimerId lastOutgoing replayed,
      link.map Link.maxOutgoing = e.link.map Link.maxOutgoing ∧
      replayed.filterMap Effect.packet? = (e.session.replay e.now).2 ∧
      e.resume ackTimeout =
        (e.caughtUp link timers lastTimerId lastOutgoing replayed).resubscribe.drainBacklog) ∨
    (e.resume ackTimeout).session.connection ≠ .connected := by
  obtain ⟨link, timers, lastTimerId, lastOutgoing, replayed, he, same, written⟩ | ⟨d, he, gone⟩ :=
    (e.withSession (e.session.replay e.now).1).replayAll_cases ackTimeout (e.session.replay e.now).2
  · exact .inl ⟨link, timers, lastTimerId, lastOutgoing, replayed, same, written,
      resume_of_replayed he⟩
  · rw [resume_of_lost he]
    exact .inr gone

theorem renewable_caughtUp {link : Option Link}
    (same : link.map Link.maxOutgoing = e.link.map Link.maxOutgoing) (timers : Timers)
    (lastTimerId : Nat) (lastOutgoing : Time) (replayed : List Effect) :
    (e.caughtUp link timers lastTimerId lastOutgoing replayed).Renewable ↔ e.Renewable :=
  have next : (e.caughtUp link timers lastTimerId lastOutgoing replayed).session.nextPacketId
      = e.session.nextPacketId :=
    Session.nextPacketId_congr rfl Std.TreeMap.size_map fun _ => Std.TreeMap.contains_map
  renewable_congr next same rfl

theorem resume_subscribes {f : String} (connected : e.session.connection = .connected)
    (sound : e.session.IsSound) (entered : e.subscriptions.contains f = true)
    (ackTimeout : Duration) (live : (e.resume ackTimeout).session.connection = .connected) :
    ∃ out, (e.resume ackTimeout).effects = e.effects ++ out ∧
      (e.Renewable ∨ e.Pursues f → out.any (Effect.subscribes f) = true) ∧
      (out.any (Effect.subscribes f) = true →
        e.Renewable ∨ e.Pursues f ∨ ∃ call ∈ e.backlog, call.subscribes f = true) := by
  have filled : e.subscriptions.isEmpty = false := Std.TreeMap.isEmpty_eq_false_of_contains entered
  obtain ⟨link, timers, lastTimerId, lastOutgoing, replayed, same, written, resumed⟩ | gone :=
    e.resume_cases ackTimeout
  · let d := e.caughtUp link timers lastTimerId lastOutgoing replayed
    have renews : d.Renewable ↔ e.Renewable :=
      renewable_caughtUp same timers lastTimerId lastOutgoing replayed
    have pursues : replayed.any (Effect.subscribes f) = true ↔ e.Pursues f := by
      rw [any_subscribes, written]
      exact any_replay_iff sound f
    rw [resumed] at live ⊢
    have here : d.session.connection = .connected := connected
    have known : d.subscriptions.isEmpty = false := filled
    obtain gone | ⟨renewed, he, held, cases⟩ := resubscribe_renews here known
    · rw [drainBacklog_of_unconnected gone] at live
      exact absurd live gone
    · obtain ⟨drained, he', offered⟩ := d.resubscribe.drainBacklog_subscribes
      refine ⟨replayed ++ renewed ++ drained, ?_, fun wanted => ?_, fun asked => ?_⟩
      · rw [he', he]
        simp only [d, caughtUp, List.append_assoc]
      · simp only [List.any_append, Bool.or_eq_true]
        obtain renewable | wanted := wanted
        · obtain ⟨-, k, bytes, rfl⟩ | ⟨blocked, -⟩ := cases
          · have listed : f ∈ d.subscriptions.filters.map (·.path) :=
              SubscriptionTable.mem_paths entered
            refine .inl (.inr ?_)
            simpa [Effect.subscribes, Effect.packet?, Packet.subscribes] using listed
          · exact absurd (renews.2 renewable) blocked
        · exact .inl (.inl (pursues.2 wanted))
      · simp only [List.any_append, Bool.or_eq_true] at asked
        obtain (old | new) | late := asked
        · exact .inr (.inl (pursues.1 old))
        · obtain ⟨renewable, -⟩ | ⟨-, rfl⟩ := cases
          · exact .inl (renews.1 renewable)
          · cases new
        · obtain ⟨call, hc, hf⟩ := offered f late
          rw [held] at hc
          exact .inr (.inr ⟨call, hc, hf⟩)
  · exact absurd live gone

/-- The broker accepts a session again. The connection survives that if its other end is there, and
on a connection that survives a filter of the table is subscribed to if one request can carry the
whole table, or a subscription to the filter was open. Otherwise only a call that was held back
subscribes to it. -/
theorem subscribes_connAck {past : List Command} {e : Engine} {p : ConnAck} {f : String}
    (h : Reachable past e) (possible : Possible past e (.incoming e.epoch (.connAck p)))
    (connecting : e.session.connection = .connecting) (again : e.connectCall = none)
    (success : p.code = .success) (entered : e.subscriptions.contains f = true) :
    let d := e.handle (.incoming e.epoch (.connAck p))
    ((∀ link, e.link = some link → link.room = none) → d.session.connection = .connected) ∧
      (d.session.connection = .connected → ∃ out, d.effects = e.effects ++ out ∧
        (e.Renewable ∨ e.Pursues f → out.any (Effect.subscribes f) = true) ∧
        (out.any (Effect.subscribes f) = true →
          e.Renewable ∨ e.Pursues f ∨ ∃ call ∈ e.backlog, call.subscribes f = true)) := by
  intro d
  have settled := h.accounted.settled
  have fitting := h.fitting
  have opened := settled.posture.link_isSome_of_opened connecting (possible.connected _ _ rfl)
  obtain ⟨link, linked⟩ := Option.isSome_iff_exists.1 opened
  obtain ⟨config, configured⟩ :=
    Option.isSome_iff_exists.1 (settled.posture.config_isSome (by simp [connecting]))
  have limit : config.maxOutgoing = link.maxOutgoing := by
    simpa [configured] using fitting.limit link linked
  obtain ⟨timers, lastTimerId, stableAfter, -, ⟨call, called, -⟩ | ⟨-, he⟩⟩ :=
    connected_cases (e := e.welcomed) configured (settled.unarmed connecting) p
  · cases again.symm.trans called
  · let m := (e.welcomed.established config p timers lastTimerId).supervise none stableAfter
    have resumed : d = m.resume config.ackTimeout :=
      (settled.handle_connAck connecting success).trans he
    have sound : m.session.IsSound := settled.ledger.sound.congr rfl rfl
    refine ⟨fun intact => ?_, fun live => ?_⟩
    · have whole : Whole config.maxOutgoing m := by
        refine ⟨rfl, linked.trans ?_⟩
        rw [limit, ← intact link linked]
      rw [resumed]
      refine (whole.resume config.ackTimeout sound fun {k t} ht => ?_).connected
      obtain ⟨config', configured', takes⟩ := fitting.takes (k := k) (t := t) ht
      cases configured.symm.trans configured'
      exact takes
    · have renews : m.Renewable ↔ e.Renewable :=
        renewable_congr (Session.nextPacketId_congr rfl rfl fun _ => rfl) rfl rfl
      rw [resumed] at live ⊢
      rw [← renews]
      exact resume_subscribes rfl sound entered config.ackTimeout live

def bounded (maxOutgoing : Nat) : Config :=
  { clientId := "", host := "h", port := 1883, maxOutgoing, reconnect := some {}
    one_le_inflight := Config.one_le_hundred }

def freshSession : ConnAck := { sessionPresent := false, code := .success }

/-- The broker grants two subscriptions, one after the other; then the connection is lost, and
another is about to be accepted. -/
def returning (maxOutgoing : Nat) : List Command :=
  [.connect 0 (bounded maxOutgoing), .opened 1 (.ok none),
    .incoming 1 (.connAck freshSession),
    .call (.subscribe 1 { filters := [{ path := "a/first/it", qos := .atMostOnce }] } 0),
    .incoming 1 (.subAck { packetId := 1, returnCodes := [.success .atMostOnce] }),
    .call (.subscribe 2 { filters := [{ path := "b/other/it", qos := .atMostOnce }] } 1),
    .incoming 1 (.subAck { packetId := 2, returnCodes := [.success .atMostOnce] }),
    .networkDown 1 .connectionClosed, .timer .reconnect 5, .opened 3 (.ok none)]

theorem renewable_returning : ((returning 31).foldl handle {}).Renewable := by
  refine ⟨3, { maxOutgoing := 31 }, by decide +kernel, by decide +kernel, ?_, by decide +kernel⟩
  exact ⟨_, rfl⟩

theorem subscribes_returning :
    let e := (returning 31).foldl handle {}
    let d := e.handle (.incoming e.epoch (.connAck freshSession))
    e.Renewable ∧ ((∀ link, e.link = some link → link.room = none) →
        d.session.connection = .connected) ∧
      (d.session.connection = .connected → ∃ out, d.effects = e.effects ++ out ∧
        (e.Renewable ∨ e.Pursues "a/first/it" →
          out.any (Effect.subscribes "a/first/it") = true) ∧
        (out.any (Effect.subscribes "a/first/it") = true →
          e.Renewable ∨ e.Pursues "a/first/it" ∨
            ∃ call ∈ e.backlog, call.subscribes "a/first/it" = true)) :=
  ⟨renewable_returning, subscribes_connAck (reachable_of_isRun (by decide +kernel))
    (possible_of_isPossible (by decide +kernel)) (by decide +kernel) (by decide +kernel) rfl
    (by decide +kernel)⟩

/-- With a limit of one byte less, the connection comes back without its subscriptions, although
each of them fits a request of its own. -/
theorem not_subscribes_again :
    ¬ ∀ past e p f, Reachable past e → Possible past e (.incoming e.epoch (.connAck p)) →
      e.session.connection = .connecting → e.connectCall = none → p.code = .success →
      (∀ link, e.link = some link → link.room = none) → e.subscriptions.contains f = true →
      ∃ x ∈ (e.handle (.incoming e.epoch (.connAck p))).effects.drop e.effects.length,
        x.subscribes f = true := by
  intro always
  let e := (returning 30).foldl handle {}
  have linked : e.link = some { maxOutgoing := 30 } := by decide +kernel
  have silent : (e.handle (.incoming e.epoch (.connAck freshSession))).effects.drop e.effects.length
    = [] := by decide +kernel
  obtain ⟨x, hx, -⟩ := always (returning 30) e freshSession "a/first/it"
    (reachable_of_isRun (by decide +kernel)) (possible_of_isPossible (by decide +kernel))
    (by decide +kernel) (by decide +kernel) rfl (fun link hl => by cases linked.symm.trans hl; rfl)
    (by decide +kernel)
  rw [silent] at hx
  cases hx

end Engine

end MqttClient
