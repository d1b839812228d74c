import Mathlib.Logic.Relation
import MqttClient.Proofs.Engine.Courses
import MqttClient.Proofs.Wire.Transport

/-! What the engine does, one deed after another. Each deed on a connection has effects of its own,
and what becomes of the table of subscriptions is tied to them; the rest of the engine changes in
few ways. Every command is a chain of such deeds, which may end with the loss of the connection, so
that what one deed preserves, a command does. -/

namespace MqttClient

def Effect.isWrite : Effect → Bool
  | .write .. => true
  | _ => false

def Effect.packet? : Effect → Option Packet
  | .write _ packet _ => some packet
  | _ => none

def Effect.OfLoss (cause : ConnectionError) : Effect → Prop
  | .close => True
  | .answer _ (.error err) =>
    err = .ofConnection cause ∨ err = .notConnected ∨ err = .connectionLost cause
  | _ => False

def Packet.isSubscription : Packet → Bool
  | .subscribe _ | .unsubscribe _ => true
  | _ => false

def Command.IsConnAck (c : Command) : Prop := ∃ epoch p, c = .incoming epoch (.connAck p)

/-- The table without the subscriptions that wait, when their request cannot be written. -/
def Pending.leave (t : SubscriptionTable HandlerId) : Pending → SubscriptionTable HandlerId
  | subscribe _ paths => t.eraseAll paths
  | _ => t

namespace Call

variable (t : SubscriptionTable HandlerId)

def pending : Call → Pending
  | publish id _ => .publish id
  | subscribe id p _ => .subscribe id (p.filters.map (·.path))
  | unsubscribe id _ => .unsubscribe id

/-- The table once the request of a call is sent. -/
def enter : Call → SubscriptionTable HandlerId
  | publish _ _ => t
  | subscribe _ p handler => p.filters.foldl (·.insert · handler) t
  | unsubscribe _ p => t.eraseAll p.filters

/-- The table when the request of a call turns out too long to be sent. -/
def withdraw (c : Call) : SubscriptionTable HandlerId := c.pending.leave (c.enter t)

/-- The table when there is no identifier for the request of a call. -/
def forgo : Call → SubscriptionTable HandlerId
  | unsubscribe _ p => t.eraseAll p.filters
  | _ => t

end Call

namespace Engine

def Offers (e : Engine) (c : Command) (call : Call) : Prop := c = .call call ∨ call ∈ e.backlog

def MayWait (e : Engine) (c : Command) (k : UInt16) (p : Pending) : Prop :=
  e.pending[k]? = some p ∨ (∃ call, e.Offers c call ∧ p = call.pending) ∨
    c.IsConnAck ∧ ∃ paths, p = .resubscribe paths

/-- An effect that is no request for subscriptions, unless it is one of a call that was offered or
of a new connection. -/
def Warrants (e : Engine) (c : Command) : Effect → Prop
  | .write id packet _ => packet.isSubscription = true →
    c.IsConnAck ∨ ∃ call, e.Offers c call ∧ id = some call.id ∧ call.Carries packet
  | _ => True

def Sends (e : Engine) (p : Packet) : Prop :=
  e.session.connection = .connected ∧ ∀ link, e.link = some link → link.Takes p

/-- An answer that comes with no change of the table. -/
def isPlain : Except ClientError Reply → Bool
  | .ok (.subAck _) => false
  | .error (.subscribeTimeout _) => false
  | .error (.encoding _) => false
  | .error (.session .packetIdsExhausted) => false
  | _ => true

/-- One thing that the engine does on a connection: its effects, and the table it leaves. -/
inductive Deed (c : Command) (e : Engine) : List Effect → SubscriptionTable HandlerId → Prop
  | quiet : Deed c e [] e.subscriptions
  | answers {call : CallId} {outcome : Except ClientError Reply} (plain : isPlain outcome = true) :
    Deed c e [.answer call outcome] e.subscriptions
  | delivers (p : Publish) :
    Deed c e ((e.subscriptions.handlersOf p.topic).map fun h => .deliver h (.ofPublish p))
      e.subscriptions
  | writes {call : Option CallId} {packet : Packet} {bytes : Bytes}
    (other : packet.isSubscription = false) :
    Deed c e [.write call packet bytes] e.subscriptions
  | sends {call : Call} {packet : Packet} {bytes : Bytes} (offered : e.Offers c call)
    (carries : call.Carries packet) :
    Deed c e [.write (some call.id) packet bytes] (call.enter e.subscriptions)
  | withdraws {call : Call} {err : WireError} (offered : e.Offers c call) :
    Deed c e [.answer call.id (.error (.encoding err))] (call.withdraw e.subscriptions)
  | forgoes {call : Call} (offered : e.Offers c call) :
    Deed c e [.answer call.id (.error (.session .packetIdsExhausted))] (call.forgo e.subscriptions)
  | granted {id : CallId} {paths : List String} {p : SubAck}
    (waits : e.pending[p.packetId]? = some (.subscribe id paths)) :
    Deed c e [.answer id (.ok (.subAck p))]
      (e.subscriptions.eraseAll (refusedPaths paths p.returnCodes))
  | regranted {paths : List String} {p : SubAck}
    (waits : e.pending[p.packetId]? = some (.resubscribe paths)) :
    Deed c e [] (e.subscriptions.eraseAll (refusedPaths paths p.returnCodes))
  | expires {id : CallId} {paths : List String} {k : UInt16}
    (waits : e.pending[k]? = some (.subscribe id paths)) :
    Deed c e [.answer id (.error (.subscribeTimeout k))] (e.subscriptions.eraseAll paths)
  | replays {packet : Packet} {bytes : Bytes} (accepts : c.IsConnAck) :
    Deed c e [.write (e.requester packet) packet bytes] e.subscriptions
  | renews {packetId : UInt16} {bytes : Bytes} (accepts : c.IsConnAck) :
    Deed c e [.write none (.subscribe { packetId, filters := e.subscriptions.filters }) bytes]
      e.subscriptions

/-- What stays as it is up to the end of a connection. Transactions go, and new ones hold what can
be written; calls go, and new ones are those that were offered. -/
structure Persists (c : Command) (e d : Engine) : Prop where
  now_eq : d.now = e.now
  config_eq : d.config = e.config
  epoch_eq : d.epoch = e.epoch
  connected : d.session.connection = .connected → e.session.connection = .connected
  maxOutgoing_eq : d.link.map Link.maxOutgoing = e.link.map Link.maxOutgoing
  effects : ∃ out, d.effects = e.effects ++ out ∧ ∀ x ∈ out, e.Warrants c x
  lastOutgoing : d.session.lastOutgoing = e.session.lastOutgoing ∨ d.session.lastOutgoing = e.now
  outgoing : ∀ {k : UInt16} {t : Transaction}, d.session.outgoing[k]? = some t →
    (∃ u, e.session.outgoing[k]? = some u ∧ t.packet = u.packet) ∨ e.Sends t.packet
  pending : ∀ {k : UInt16} {p : Pending}, d.pending[k]? = some p → e.MayWait c k p
  backlog : ∀ call ∈ d.backlog, e.Offers c call

structure Stays (c : Command) (e d : Engine) : Prop extends Persists c e d where
  connection_eq : d.session.connection = e.session.connection
  received_eq : d.session.received = e.session.received
  keepAlive_eq : d.keepAlive = e.keepAlive

/-- What a deed does before it has any effect. -/
structure Poised (c : Command) (e d : Engine) : Prop extends Stays c e d where
  effects_eq : d.effects = e.effects
  lastOutgoing_eq : d.session.lastOutgoing = e.session.lastOutgoing
  timer_eq : d.timers.keepAlive = e.timers.keepAlive

/-- A deed on a connection. The timer of the keep alive is left alone, or armed anew by the time of
the last packet that was written. -/
structure Does (c : Command) (e : Engine) (out : List Effect) (d : Engine) : Prop
    extends Stays c e d where
  deed : Deed c e out d.subscriptions
  effects_eq : d.effects = e.effects ++ out
  lastOutgoing_eq : d.session.lastOutgoing =
    if out.any Effect.isWrite then e.now else e.session.lastOutgoing
  timer : d.timers.keepAlive = e.timers.keepAlive ∨
    ∃ a, d.timers.keepAlive = some a ∧ a.deadline ≤ d.session.lastOutgoing + e.keepAlive.nanos

/-- The connection, or the attempt, is given up, or an attempt starts. -/
structure Parts (c : Command) (e d : Engine) : Prop where
  now_eq : d.now = e.now
  epoch_lt : e.epoch < d.epoch
  connection_ne : d.session.connection ≠ .connected
  link_eq : d.link = none
  effects : ∃ out, d.effects = e.effects ++ out ∧ ∀ x ∈ out, e.Warrants c x
  lastOutgoing : d.session.lastOutgoing = e.session.lastOutgoing ∨ d.session.lastOutgoing = e.now
  outgoing : ∀ {k : UInt16} {t : Transaction}, d.session.outgoing[k]? = some t →
    d.config = e.config ∧
      ((∃ u, e.session.outgoing[k]? = some u ∧ t.packet = u.packet) ∨ e.Sends t.packet)
  pending : ∀ {k : UInt16} {p : Pending}, d.pending[k]? = some p → e.MayWait c k p
  backlog : ∀ call ∈ d.backlog, e.Offers c call

def receivedAfter (e : Engine) : Command → Std.TreeSet UInt16
  | .incoming epoch packet =>
    if epoch = e.epoch then (e.session.receive e.now packet).1.received else e.session.received
  | _ => e.session.received

/-- The command was taken notice of, and nothing is done about it yet. -/
structure Hears (c : Command) (e d : Engine) : Prop extends Persists c e d where
  connection_eq : d.session.connection = e.session.connection
  received_eq : d.session.received = e.receivedAfter c
  keepAlive_eq : d.keepAlive = e.keepAlive
  effects_eq : d.effects = e.effects
  lastOutgoing_eq : d.session.lastOutgoing = e.session.lastOutgoing
  timers_eq : d.timers = e.timers
  subscriptions_eq : d.subscriptions = e.subscriptions
  pending_eq : d.pending = e.pending
  backlog_eq : d.backlog = e.backlog

/-- The broker accepts the session with that packet, and nothing is taken up yet. -/
structure Accepts (config : Config) (p : ConnAck) (c : Command) (e d : Engine) : Prop where
  asked : c = .incoming e.epoch (.connAck p)
  success : p.code = .success
  connecting : e.session.connection = .connecting
  configured : e.config = some config
  now_eq : d.now = e.now
  config_eq : d.config = e.config
  epoch_eq : d.epoch = e.epoch
  connected : d.session.connection = .connected
  received_eq : d.session.received = e.session.received
  outgoing_eq : d.session.outgoing = e.session.outgoing
  keepAlive_eq : d.keepAlive = agreedKeepAlive config p
  timer : ∀ a, d.timers.keepAlive = some a →
    a.deadline = e.now + (agreedKeepAlive config p).nanos
  link_eq : d.link = e.link
  effects_eq : d.effects = e.effects
  lastOutgoing_eq : d.session.lastOutgoing = e.session.lastOutgoing
  subscriptions_eq : d.subscriptions = e.subscriptions
  pending_eq : d.pending = e.pending
  backlog_eq : d.backlog = e.backlog

inductive Step (c : Command) (e : Engine) : Engine → Prop
  | does {out : List Effect} {d : Engine} (does : Does c e out d) : Step c e d
  | links {config : Config} (room : Option Nat) (configured : e.config = some config) :
    Step c e { e with
      opening := false
      link := some { maxOutgoing := config.maxOutgoing, room } }
  | parts {d : Engine} (parts : Parts c e d) : Step c e d

abbrev Steps (c : Command) : Engine → Engine → Prop := Relation.ReflTransGen (Step c)

section

variable {c : Command} {e d f m : Engine} {out : List Effect}

theorem warrants_of_silent (e : Engine) (c : Command) (silent : out.any Effect.isWrite = false) :
    ∀ x ∈ out, e.Warrants c x := by
  intro x hx
  cases x with
  | write id packet bytes =>
    have wrote : out.any Effect.isWrite = true := List.any_eq_true.2 ⟨_, hx, rfl⟩
    cases silent.symm.trans wrote
  | _ => trivial

theorem warrants_of_backlog (backlog : ∀ call ∈ d.backlog, e.Offers c call) {x : Effect}
    (h : d.Warrants c x) : e.Warrants c x := by
  cases x with
  | write id packet bytes =>
    intro asks
    obtain accepts | ⟨call, offered, id, carries⟩ := h asks
    · exact .inl accepts
    · exact .inr ⟨call, offered.elim .inl (backlog call), id, carries⟩
  | _ => trivial

theorem Deed.warrants {t : SubscriptionTable HandlerId} (h : Deed c e out t) :
    ∀ x ∈ out, e.Warrants c x := by
  cases h with
  | quiet | regranted => exact List.forall_mem_nil _
  | delivers p =>
    intro x hx
    obtain ⟨handler, -, rfl⟩ := List.mem_map.1 hx
    trivial
  | answers | withdraws | forgoes | granted | expires => exact warrants_of_silent e c rfl
  | writes other =>
    refine List.forall_mem_singleton.2 fun asks => ?_
    cases other.symm.trans asks
  | sends offered carries =>
    exact List.forall_mem_singleton.2 fun _ => .inr ⟨_, offered, rfl, carries⟩
  | replays accepts | renews accepts =>
    exact List.forall_mem_singleton.2 fun _ => .inl accepts

theorem Persists.sends (h : Persists c e d) {p : Packet} (sends : d.Sends p) : e.Sends p := by
  obtain ⟨connected, takes⟩ := sends
  refine ⟨h.connected connected, fun link hl => ?_⟩
  have same := h.maxOutgoing_eq
  rw [hl, Option.map_some, Option.map_eq_some_iff] at same
  obtain ⟨link', hl', same⟩ := same
  exact (takes link' hl').congr same.symm

theorem Persists.mayWait (h : Persists c e d) {k : UInt16} {p : Pending} (waits : d.MayWait c k p) :
    e.MayWait c k p := by
  obtain old | ⟨call, offered, rfl⟩ | renewed := waits
  · exact h.pending old
  · exact .inr (.inl ⟨call, offered.elim .inl (h.backlog call), rfl⟩)
  · exact .inr (.inr renewed)

theorem Persists.trans (h : Persists c e d) (h' : Persists c d f) : Persists c e f where
  now_eq := h'.now_eq.trans h.now_eq
  config_eq := h'.config_eq.trans h.config_eq
  epoch_eq := h'.epoch_eq.trans h.epoch_eq
  connected := h.connected ∘ h'.connected
  maxOutgoing_eq := h'.maxOutgoing_eq.trans h.maxOutgoing_eq
  effects := by
    obtain ⟨out, he, warrants⟩ := h.effects
    obtain ⟨out', he', warrants'⟩ := h'.effects
    exact ⟨out ++ out', by rw [he', he, List.append_assoc], List.forall_mem_append.2
      ⟨warrants, fun x hx => warrants_of_backlog h.backlog (warrants' x hx)⟩⟩
  lastOutgoing := h'.lastOutgoing.elim (fun same => same ▸ h.lastOutgoing)
    fun new => .inr (new.trans h.now_eq)
  outgoing ht := by
    obtain ⟨u, hu, same⟩ | sends := h'.outgoing ht
    · obtain ⟨v, hv, same'⟩ | sends := h.outgoing hu
      · exact .inl ⟨v, hv, same.trans same'⟩
      · exact .inr (same ▸ sends)
    · exact .inr (h.sends sends)
  pending hp := h.mayWait (h'.pending hp)
  backlog call hc := (h'.backlog call hc).elim .inl (h.backlog call)

theorem Stays.trans (h : Stays c e d) (h' : Stays c d f) : Stays c e f where
  toPersists := h.toPersists.trans h'.toPersists
  connection_eq := h'.connection_eq.trans h.connection_eq
  received_eq := h'.received_eq.trans h.received_eq
  keepAlive_eq := h'.keepAlive_eq.trans h.keepAlive_eq

theorem Poised.trans (h : Poised c e d) (h' : Poised c d f) : Poised c e f where
  toStays := h.toStays.trans h'.toStays
  effects_eq := h'.effects_eq.trans h.effects_eq
  lastOutgoing_eq := h'.lastOutgoing_eq.trans h.lastOutgoing_eq
  timer_eq := h'.timer_eq.trans h.timer_eq

theorem Persists.of_eq (now : d.now = e.now) (config : d.config = e.config)
    (epoch : d.epoch = e.epoch)
    (connected : d.session.connection = .connected → e.session.connection = .connected)
    (link : d.link = e.link) (effects : d.effects = e.effects)
    (lastOutgoing : d.session.lastOutgoing = e.session.lastOutgoing)
    (outgoing : d.session.outgoing = e.session.outgoing) (pending : d.pending = e.pending)
    (backlog : d.backlog = e.backlog) : Persists c e d :=
  ⟨now, config, epoch, connected, link ▸ rfl, ⟨[], by simpa using effects, List.forall_mem_nil _⟩,
    .inl lastOutgoing,
    fun ht => .inl ⟨_, outgoing ▸ ht, rfl⟩, fun hp => .inl (pending ▸ hp),
    fun _ hc => .inr (backlog ▸ hc)⟩

theorem Persists.refl (c : Command) (e : Engine) : Persists c e e :=
  .of_eq rfl rfl rfl id rfl rfl rfl rfl rfl rfl

theorem Stays.of_eq (now : d.now = e.now) (config : d.config = e.config) (epoch : d.epoch = e.epoch)
    (connection : d.session.connection = e.session.connection)
    (received : d.session.received = e.session.received)
    (outgoing : d.session.outgoing = e.session.outgoing) (keepAlive : d.keepAlive = e.keepAlive)
    (link : d.link = e.link) (effects : d.effects = e.effects)
    (lastOutgoing : d.session.lastOutgoing = e.session.lastOutgoing)
    (pending : d.pending = e.pending) (backlog : d.backlog = e.backlog) : Stays c e d :=
  ⟨.of_eq now config epoch (connection ▸ id) link effects lastOutgoing outgoing pending backlog,
    connection, received, keepAlive⟩

theorem Stays.refl (c : Command) (e : Engine) : Stays c e e :=
  .of_eq rfl rfl rfl rfl rfl rfl rfl rfl rfl rfl rfl rfl

theorem Poised.of_eq (now : d.now = e.now) (config : d.config = e.config)
    (epoch : d.epoch = e.epoch)
    (connection : d.session.connection = e.session.connection)
    (received : d.session.received = e.session.received)
    (outgoing : d.session.outgoing = e.session.outgoing)
    (lastOutgoing : d.session.lastOutgoing = e.session.lastOutgoing)
    (keepAlive : d.keepAlive = e.keepAlive) (link : d.link = e.link)
    (effects : d.effects = e.effects) (timer : d.timers.keepAlive = e.timers.keepAlive)
    (pending : d.pending = e.pending) (backlog : d.backlog = e.backlog) : Poised c e d :=
  ⟨.of_eq now config epoch connection received outgoing keepAlive link effects lastOutgoing pending
    backlog, effects, lastOutgoing, timer⟩

theorem Poised.refl (c : Command) (e : Engine) : Poised c e e :=
  .of_eq rfl rfl rfl rfl rfl rfl rfl rfl rfl rfl rfl rfl rfl

theorem Poised.does (h : Poised c e m) {t : SubscriptionTable HandlerId} (deed : Deed c e out t)
    (silent : out.any Effect.isWrite = false) :
    Does c e out { m with subscriptions := t, effects := m.effects ++ out } :=
  { h with
    effects := ⟨out, congrArg (· ++ out) h.effects_eq, deed.warrants⟩
    outgoing := h.outgoing
    deed
    effects_eq := congrArg (· ++ out) h.effects_eq
    lastOutgoing_eq := by simpa [silent] using h.lastOutgoing_eq
    timer := .inl h.timer_eq }

theorem write_cases (e : Engine) (p : Packet) :
    (∃ link bytes, e.link = some link ∧ link.Takes p ∧ link.room ≠ some 0 ∧
      e.write p = ({ e with
        link := some { link with room := link.room.map (· - 1) }
        effects := e.effects ++ [.write (e.requester p) p bytes]
        session := { e.session with lastOutgoing := e.now } }, .ok ())) ∨
    (∃ link err, e.link = some link ∧ ¬ link.Takes p ∧ e.write p = (e, .error (.encoding err))) ∨
    ((∀ link, e.link = some link → link.Takes p ∧ link.room = some 0) ∧
      ∃ err, (∀ cause, err ≠ .encoding cause) ∧ e.write p = (e, .error err)) := by
  cases linked : e.link with
  | none =>
    refine .inr (.inr ⟨by simp, .connectionClosed, by simp, ?_⟩)
    simp only [write, put, linked]
  | some link =>
    have same : ({ e with link := some link } : Engine) = e := by rw [← linked]
    obtain ⟨takes, room, bytes, -, he⟩ | ⟨refuses, err, he⟩ | ⟨takes, room, he⟩ :=
      link.send_cases p
    all_goals simp only [write, put, linked, he, same]
    · exact .inl ⟨link, bytes, rfl, takes, room, rfl⟩
    · exact .inr (.inl ⟨link, err, rfl, refuses, rfl⟩)
    · refine .inr (.inr ⟨by simp [takes, room], .brokenPipe, ?_, rfl⟩)
      simp [TransportError.brokenPipe]

theorem Poised.does_write (h : Poised c e m) {link : Link} {packet : Packet} {bytes : Bytes}
    {call : Option CallId} (hl : m.link = some link) (room : Option Nat)
    (deed : Deed c e [.write call packet bytes] m.subscriptions) :
    Does c e [.write call packet bytes] { m with
      link := some { link with room }
      effects := m.effects ++ [.write call packet bytes]
      session := { m.session with lastOutgoing := m.now } } :=
  { h with
    maxOutgoing_eq := by
      rw [← h.maxOutgoing_eq, hl]
      rfl
    effects := ⟨_, congrArg (· ++ _) h.effects_eq, deed.warrants⟩
    lastOutgoing := .inr h.now_eq
    outgoing := h.outgoing
    deed
    effects_eq := congrArg (· ++ _) h.effects_eq
    lastOutgoing_eq := h.now_eq
    timer := .inl h.timer_eq }

theorem Poised.does_nothing (h : Poised c e d) (same : d.subscriptions = e.subscriptions) :
    Does c e [] d := by
  have silent : Deed c e [] d.subscriptions := same ▸ .quiet
  have did := h.does silent rfl
  rwa [List.append_nil] at did

theorem Poised.steps (h : Poised c e d) (same : d.subscriptions = e.subscriptions) :
    Steps c e d :=
  .single (.does (h.does_nothing same))

theorem steps_answer (c : Command) (e : Engine) (call : CallId)
    {outcome : Except ClientError Reply} (plain : isPlain outcome = true) :
    Steps c e (e.emit (.answer call outcome)) :=
  .single (.does ((Poised.refl c e).does (.answers plain) rfl))

theorem Persists.parts (h : Persists c e m) (parts : Parts c m d) : Parts c e d where
  now_eq := parts.now_eq.trans h.now_eq
  epoch_lt := h.epoch_eq ▸ parts.epoch_lt
  connection_ne := parts.connection_ne
  link_eq := parts.link_eq
  effects := by
    obtain ⟨out, he, warrants⟩ := h.effects
    obtain ⟨out', he', warrants'⟩ := parts.effects
    exact ⟨out ++ out', by rw [he', he, List.append_assoc], List.forall_mem_append.2
      ⟨warrants, fun x hx => warrants_of_backlog h.backlog (warrants' x hx)⟩⟩
  lastOutgoing := parts.lastOutgoing.elim (fun same => same ▸ h.lastOutgoing)
    fun new => .inr (new.trans h.now_eq)
  outgoing ht := by
    obtain ⟨config, ⟨u, hu, same⟩ | sends⟩ := parts.outgoing ht
    · refine ⟨config.trans h.config_eq, ?_⟩
      obtain ⟨v, hv, same'⟩ | sends := h.outgoing hu
      · exact .inl ⟨v, hv, same.trans same'⟩
      · exact .inr (same ▸ sends)
    · exact ⟨config.trans h.config_eq, .inr (h.sends sends)⟩
  pending hp := h.mayWait (parts.pending hp)
  backlog call hc := (parts.backlog call hc).elim .inl (h.backlog call)

theorem parts_teardown (e : Engine) : Parts c e e.teardown := by
  obtain ⟨effects, said, he⟩ := e.teardown_eq
  rw [he]
  refine ⟨rfl, Nat.lt_succ_self _, nofun, rfl, ?_, .inl rfl, fun ht => ⟨rfl, .inl ⟨_, ht, rfl⟩⟩,
    .inl, fun _ => .inr⟩
  obtain rfl | rfl := said
  · exact ⟨[], (List.append_nil _).symm, List.forall_mem_nil _⟩
  · exact ⟨_, rfl, warrants_of_silent e c rfl⟩

theorem Parts.of_eq (h : Parts c e m) (now : d.now = m.now) (epoch : d.epoch = m.epoch)
    (connection : d.session.connection = m.session.connection) (link : d.link = m.link)
    (effects : ∃ out, d.effects = m.effects ++ out ∧ out.any Effect.isWrite = false)
    (config : d.config = m.config)
    (lastOutgoing : d.session.lastOutgoing = m.session.lastOutgoing)
    (outgoing : ∀ {k : UInt16} {t : Transaction}, d.session.outgoing[k]? = some t →
      m.session.outgoing[k]? = some t)
    (pending : ∀ {k : UInt16} {p : Pending}, d.pending[k]? = some p → m.pending[k]? = some p)
    (backlog : ∀ call ∈ d.backlog, call ∈ m.backlog) : Parts c e d where
  now_eq := now.trans h.now_eq
  epoch_lt := epoch ▸ h.epoch_lt
  connection_ne := connection ▸ h.connection_ne
  link_eq := link.trans h.link_eq
  effects := by
    obtain ⟨out, he, warrants⟩ := h.effects
    obtain ⟨out', he', silent⟩ := effects
    exact ⟨out ++ out', by rw [he', he, List.append_assoc],
      List.forall_mem_append.2 ⟨warrants, warrants_of_silent e c silent⟩⟩
  lastOutgoing := lastOutgoing ▸ h.lastOutgoing
  outgoing ht := by
    obtain ⟨same, known⟩ := h.outgoing (outgoing ht)
    exact ⟨config.trans same, known⟩
  pending hp := h.pending (pending hp)
  backlog call hc := h.backlog call (backlog call hc)

theorem Parts.abort (h : Parts c e m) (err : ClientError) (t : SubscriptionTable HandlerId) :
    Parts c e { (m.failAll err).cleanSession with subscriptions := t } := by
  rw [failAll_eq]
  refine h.of_eq rfl rfl rfl rfl ⟨_, List.append_assoc .., ?_⟩ rfl rfl (fun {k t} ht => ?_)
    (fun {k p} hp => ?_) (List.forall_mem_nil _)
  · refine List.any_eq_false.2 fun x hx => ?_
    simp only [List.mem_append, List.mem_map] at hx
    obtain ⟨_, -, rfl⟩ | ⟨_, -, rfl⟩ := hx <;> exact Bool.false_ne_true
  · cases (Std.TreeMap.getElem?_emptyc (a := k)).symm.trans ht
  · cases (Std.TreeMap.getElem?_emptyc (a := k)).symm.trans hp

theorem effects_failAll (e : Engine) (err : ClientError) :
    ∃ calls : List CallId, (e.failAll err).effects
      = e.effects ++ calls.map fun call => .answer call (.error err) := by
  refine ⟨e.pending.values.filterMap Pending.call? ++ e.backlog.map Call.id, ?_⟩
  rw [failAll_eq]
  simp

theorem effects_connectionLost (e : Engine) (cause : ConnectionError) :
    ∃ out, (e.connectionLost cause).effects = e.effects ++ out ∧ ∀ x ∈ out, x.OfLoss cause := by
  have torn : ∃ close, e.teardown.effects = e.effects ++ close ∧ ∀ x ∈ close, x.OfLoss cause := by
    obtain ⟨effects, rfl | rfl, he⟩ := e.teardown_eq
    · exact ⟨[], by rw [he, List.append_nil], List.forall_mem_nil _⟩
    · exact ⟨[.close], by rw [he], List.forall_mem_singleton.2 trivial⟩
  obtain ⟨close, closed, closes⟩ := torn
  have told : ∀ (calls : List CallId) {err : ClientError},
      err = .ofConnection cause ∨ err = .notConnected ∨ err = .connectionLost cause →
      ∀ x ∈ calls.map fun call => Effect.answer call (.error err), x.OfLoss cause :=
    fun calls _ known => List.forall_mem_map.2 fun _ _ => known
  unfold connectionLost
  split
  · exact ⟨[], (List.append_nil _).symm, List.forall_mem_nil _⟩
  · dsimp only
    split
    · next call _ =>
      let failed := { e.teardown with connectCall := none }.fail call (.ofConnection cause)
      obtain ⟨calls, he⟩ := failed.effects_failAll .notConnected
      refine ⟨close ++ [call].map (fun call => .answer call (.error (.ofConnection cause)))
        ++ calls.map fun call => .answer call (.error .notConnected), ?_, ?_⟩
      · have here : failed.effects
            = e.teardown.effects ++ [.answer call (.error (.ofConnection cause))] := rfl
        exact he.trans (by rw [here, closed]; simp)
      · exact List.forall_mem_append.2 ⟨List.forall_mem_append.2 ⟨closes, told _ (.inl rfl)⟩,
          told _ (.inr (.inl rfl))⟩
    · exact ⟨close, closed, closes⟩
    · obtain ⟨calls, he⟩ := e.teardown.effects_failAll (.connectionLost cause)
      refine ⟨close ++ calls.map fun call => .answer call (.error (.connectionLost cause)),
        he.trans (by rw [closed]; simp), ?_⟩
      exact List.forall_mem_append.2 ⟨closes, told _ (.inr (.inr rfl))⟩

theorem parts_connectionLost (e : Engine) (cause : ConnectionError)
    (alive : e.session.connection = .disconnected → e.link.isSome) :
    Parts c e (e.connectionLost cause) := by
  have torn : Parts c e e.teardown := e.parts_teardown
  unfold connectionLost
  split
  · next gone =>
    have linked := alive gone.1
    rw [Option.isNone_iff_eq_none.1 gone.2] at linked
    cases linked
  · dsimp only
    split
    · next call _ =>
      have told : Parts c e
          ({ e.teardown with connectCall := none }.fail call (.ofConnection cause)) :=
        torn.of_eq rfl rfl rfl rfl ⟨_, rfl, rfl⟩ rfl rfl id id fun _ => id
      exact told.abort _ _
    · exact torn.of_eq rfl rfl rfl rfl ⟨[], (List.append_nil _).symm, rfl⟩ rfl rfl id id fun _ => id
    · exact torn.abort _ _

theorem Stays.lost (h : Stays c e m) (alive : e.session.connection = .disconnected → e.link.isSome)
    (cause : ConnectionError) : Steps c e (m.connectionLost cause) := by
  have linked : m.link.isSome = e.link.isSome := by
    simpa using congrArg Option.isSome h.maxOutgoing_eq
  refine .single (.parts (h.toPersists.parts (m.parts_connectionLost cause fun gone => ?_)))
  exact linked.trans (alive (h.connection_eq.symm.trans gone))

theorem Poised.then_eq (h : Poised c e m) (now : d.now = m.now) (config : d.config = m.config)
    (epoch : d.epoch = m.epoch) (session : d.session = m.session)
    (keepAlive : d.keepAlive = m.keepAlive) (link : d.link = m.link)
    (effects : d.effects = m.effects) (timer : d.timers.keepAlive = m.timers.keepAlive)
    (pending : d.pending = m.pending) (backlog : d.backlog = m.backlog) : Poised c e d :=
  h.trans (.of_eq now config epoch (session ▸ rfl) (session ▸ rfl) (session ▸ rfl) (session ▸ rfl)
    keepAlive link effects timer pending backlog)

theorem Poised.schedule (h : Poised c e m) {timer : Timer} (ne : timer ≠ .keepAlive)
    (delay : Duration) : Poised c e (m.schedule timer delay) :=
  h.then_eq rfl rfl rfl rfl rfl rfl rfl (Timers.get?_set_of_ne _ _ ne.symm) rfl rfl

theorem Poised.cancelTimer (h : Poised c e m) {timer : Timer} (ne : timer ≠ .keepAlive) :
    Poised c e (m.cancelTimer timer) :=
  h.then_eq rfl rfl rfl rfl rfl rfl rfl (Timers.get?_erase_of_ne _ ne.symm) rfl rfl

theorem Poised.erasePending (h : Poised c e m) (k : UInt16) : Poised c e (m.erasePending k) := by
  refine h.trans ?_
  have same := Poised.refl c m
  refine { same with
    effects := same.effects
    outgoing := same.outgoing
    pending := fun {j p} hp => .inl ?_ }
  simp only [Engine.erasePending, Std.TreeMap.getElem?_erase] at hp
  split at hp
  · cases hp
  · exact hp

theorem Poised.revise (h : Poised c e m) {s : Session}
    (connection : s.connection = m.session.connection) (received : s.received = m.session.received)
    (lastOutgoing : s.lastOutgoing = m.session.lastOutgoing)
    (outgoing : ∀ {k : UInt16} {t : Transaction}, s.outgoing[k]? = some t →
      ∃ u, m.session.outgoing[k]? = some u ∧ t.packet = u.packet) :
    Poised c e (m.withSession s) := by
  refine h.trans ?_
  have same := Poised.refl c m
  exact { same with
    effects := same.effects
    connected := connection ▸ id
    connection_eq := connection
    received_eq := received
    lastOutgoing_eq := lastOutgoing
    lastOutgoing := .inl lastOutgoing
    outgoing := fun ht => .inl (outgoing ht)
    pending := same.pending }

theorem Poised.forget (h : Poised c e m) (k : UInt16) : Poised c e (m.forget k) := by
  exact h.revise rfl rfl rfl fun ht => ⟨_, Session.outgoing_of_forget ht, rfl⟩

theorem Poised.insert (h : Poised c e m) {k : UInt16} {t u : Transaction}
    (ht : m.session.outgoing[k]? = some t) (same : u.packet = t.packet) :
    Poised c e
      (m.withSession { m.session with outgoing := m.session.outgoing.insert k u }) := by
  exact h.revise rfl rfl rfl fun hv => Session.packet_of_insert ht hv same

theorem Poised.hold (h : Poised c e m) {backlog : List Call}
    (known : ∀ call ∈ backlog, call ∈ m.backlog) : Poised c e { m with backlog } := by
  refine h.trans ?_
  have same := Poised.refl c m
  exact { same with
    effects := same.effects
    outgoing := same.outgoing
    pending := same.pending
    backlog := fun call hc => .inr (known call hc) }

theorem steps_schedule (c : Command) (e : Engine) {timer : Timer} (ne : timer ≠ .keepAlive)
    (delay : Duration) : Steps c e (e.schedule timer delay) :=
  ((Poised.refl c e).schedule ne delay).steps rfl

theorem dropPending_eq (e : Engine) (k : UInt16) (p : Pending) (err : ClientError) :
    e.dropPending k p err = { (e.forget k).erasePending k with
      subscriptions := p.leave e.subscriptions
      effects := e.effects ++ p.call?.toList.map fun id => .answer id (.error err) } := by
  cases p with
  | resubscribe =>
    have silent : e.effects = e.effects ++ [] := (List.append_nil _).symm
    exact congrArg (fun effects => { (e.forget k).erasePending k with effects }) silent
  | _ => rfl

theorem Poised.drop (h : Poised c e m) (k : UInt16) (packet : Packet) (phase : Phase)
    (p : Pending) : Poised c e (((m.admitted k packet phase p).forget k).erasePending k) := by
  refine h.trans ?_
  have same := Poised.refl c m
  refine { same with
    effects := same.effects
    outgoing := fun {j t} ht => .inl ⟨t, ?_, rfl⟩
    pending := fun {j q} hq => .inl ?_ }
  · simp only [Engine.erasePending, Engine.forget, withSession, Session.forget, admitted,
      Session.track, Std.TreeMap.getElem?_erase, Std.TreeMap.getElem?_insert] at ht
    split at ht
    · cases ht
    · simp_all
  · simp only [Engine.erasePending, Engine.forget, withSession, admitted,
      Std.TreeMap.getElem?_erase, Std.TreeMap.getElem?_insert] at hq
    split at hq
    · cases hq
    · simp_all

theorem Poised.admit (h : Poised c e m) {k : UInt16} {packet : Packet} (phase : Phase) {p : Pending}
    (sends : m.Sends packet)
    (waits : (∃ call, e.Offers c call ∧ p = call.pending) ∨
      c.IsConnAck ∧ ∃ paths, p = .resubscribe paths) :
    Poised c e (m.admitted k packet phase p) :=
  { h with
    effects := h.effects
    outgoing := fun {j t} ht => by
      simp only [admitted, Session.track, Std.TreeMap.getElem?_insert,
        Std.LawfulEqCmp.compare_eq_iff_eq] at ht
      split at ht
      · cases ht
        exact .inr (h.sends sends)
      · exact h.outgoing ht
    pending := fun {j q} hq => by
      simp only [admitted, Std.TreeMap.getElem?_insert] at hq
      split at hq
      · cases hq
        exact .inr waits
      · exact h.pending hq }

theorem Poised.transmit (h : Poised c e m) (connected : e.session.connection = .connected)
    {k : UInt16} {packet : Packet} {phase : Phase} {p : Pending}
    (waits : (∃ call, e.Offers c call ∧ p = call.pending) ∨
      c.IsConnAck ∧ ∃ paths, p = .resubscribe paths)
    (asks : ∀ d : Engine, d.requester packet = d.pending[k]?.bind Pending.call?)
    (sent : ∀ bytes, Deed c e [.write p.call? packet bytes] m.subscriptions)
    (dropped : ∀ err, Deed c e (p.call?.toList.map fun id => .answer id (.error (.encoding err)))
      (p.leave m.subscriptions)) :
    Steps c e
      ((m.withSession (m.session.track m.now k packet phase)).transmit k packet p) := by
  let opened := m.withSession (m.session.track m.now k packet phase)
  have here : m.session.connection = .connected := h.connection_eq.trans connected
  have caller : (m.admitted k packet phase p).requester packet = p.call? := by
    rw [asks]
    simp [admitted]
  obtain ⟨link, bytes, linked, takes, -, he⟩ | ⟨link, err, -, -, he⟩ | ⟨stuck, err, ne, he⟩ :=
    (m.admitted k packet phase p).write_cases packet
  · have admits : Poised c e (m.admitted k packet phase p) := by
      refine h.admit phase ⟨here, fun link' hl => ?_⟩ waits
      cases (show m.link = some link from linked).symm.trans hl
      exact takes
    rw [caller] at he
    have wrote := admits.does_write linked (link.room.map (· - 1)) (sent bytes)
    rw [transmit_of_ok (e := opened) he]
    exact .head (.does wrote) (steps_schedule c _ (by simp) _)
  · have gone := h.drop k packet phase p
    rw [transmit_of_encoding (e := opened) he, dropPending_eq]
    refine .single (.does (gone.does (dropped err) ?_))
    simp [Effect.isWrite, Function.comp_def]
  · have admits : Poised c e (m.admitted k packet phase p) :=
      h.admit phase ⟨here, fun link hl => (stuck link hl).1⟩ waits
    rw [transmit_of_error (e := opened) he ne]
    exact admits.toStays.lost (by simp [connected]) _

theorem call?_pending (call : Call) : call.pending.call? = some call.id := by
  cases call <;> rfl

theorem sendCall_forms (connected : e.session.connection = .connected) (call : Call) :
    (∃ id p, call = .publish id p ∧
      e.sendCall call = e.sendUnacknowledged id (.publish { p with packetId := 0 })) ∨
    (∃ k packet phase, call.Carries packet ∧
      (∀ d : Engine, d.requester packet = d.pending[k]?.bind Pending.call?) ∧
      e.sendCall call =
        ({ e with subscriptions := call.enter e.subscriptions }.withSession
          (e.session.track e.now k packet phase)).transmit k packet call.pending) ∨
    e.sendCall call =
      { e with subscriptions := call.forgo e.subscriptions }.fail call.id
        (.session .packetIdsExhausted) := by
  cases call with
  | publish id p =>
    simp only [Engine.sendCall, Session.send, Session.sendPublish]
    by_cases hq : p.qos = .atMostOnce
    · simp only [hq, connected, if_true]
      exact .inl ⟨id, p, rfl, hq ▸ rfl⟩
    · simp only [hq, if_false]
      obtain ⟨k, he⟩ | he := Session.start_forms connected e.now .sent
        fun k => .publish { p with packetId := k, dup := false }
      all_goals rw [he]
      · exact .inr (.inl ⟨k, _, .sent, ⟨k, false, rfl, hq⟩, fun d => by simp [requester, hq], rfl⟩)
      · exact .inr (.inr rfl)
  | subscribe id p handler =>
    simp only [Engine.sendCall, Session.send]
    obtain ⟨k, he⟩ | he := Session.start_forms connected e.now .subscribing
      fun k => .subscribe { p with packetId := k }
    all_goals rw [he]
    · exact .inr (.inl ⟨k, _, .subscribing, ⟨k, rfl⟩, fun _ => rfl, rfl⟩)
    · exact .inr (.inr rfl)
  | unsubscribe id p =>
    simp only [Engine.sendCall, Session.send, Engine.unsubscribeAll]
    obtain ⟨k, he⟩ | he := Session.start_forms connected e.now .unsubscribing
      fun k => .unsubscribe { p with packetId := k }
    all_goals rw [he]
    · exact .inr (.inl ⟨k, _, .unsubscribing, ⟨k, rfl⟩, fun _ => rfl, rfl⟩)
    · exact .inr (.inr rfl)

theorem Poised.sendUnacknowledged (h : Poised c e m)
    (connected : e.session.connection = .connected) (table : m.subscriptions = e.subscriptions)
    {id : CallId} {p : Publish} (offered : e.Offers c (.publish id p)) (packetId : UInt16) :
    Steps c e (m.sendUnacknowledged id (.publish { p with packetId })) := by
  unfold Engine.sendUnacknowledged
  obtain ⟨link, bytes, linked, takes, -, he⟩ | ⟨link, err, -, -, he⟩ | ⟨stuck, err, ne, he⟩ :=
    m.write_cases (.publish { p with packetId })
  all_goals rw [he]
  · have deed : Deed c e [.write (m.requester (.publish { p with packetId }))
        (.publish { p with packetId }) bytes] m.subscriptions := table ▸ .writes rfl
    have wrote := h.does_write linked (link.room.map (· - 1)) deed
    exact .head (.does wrote) (steps_answer c _ id rfl)
  · exact .single (.does (h.does (t := m.subscriptions) (table ▸ .withdraws offered) rfl))
  · have told : Does c e [.answer id (.error .notConnected)] (m.fail id .notConnected) :=
      h.does (t := m.subscriptions) (table ▸ .answers rfl) rfl
    have lost := fun cause => told.toStays.lost (c := c) (by simp [connected]) cause
    cases err with
    | encoding cause => exact absurd rfl (ne cause)
    | _ => exact lost _

end

end Engine

end MqttClient
