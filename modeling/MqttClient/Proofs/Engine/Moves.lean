import MqttClient.Proofs.Engine.Progress

/-! The side of the engine that faces the broker and the clock: its connection, its timers and what
it does to the world. Whatever a command does, this side changes by a few kinds of moves, and each
move says all that it does to it. What one move preserves, a command does, so that later arguments
about timers, epochs and packets on the wire go by the cases below. -/

namespace MqttClient

theorem Timers.get?_of_erase {ts : Timers} {timer other : Timer} {a : Armed}
    (ha : (ts.erase other).get? timer = some a) : ts.get? timer = some a := by
  by_cases same : timer = other
  · rw [same, get?_erase_self] at ha
    cases ha
  · rwa [get?_erase_of_ne _ same] at ha

/-- The packet belongs to an open session, and carries an identifier if it is acknowledged. -/
def Packet.IsOfSession : Packet → Prop
  | .publish p => p.packetId = 0 ↔ p.qos = .atMostOnce
  | .subscribe p => p.packetId ≠ 0
  | .unsubscribe p => p.packetId ≠ 0
  | _ => False

/-- A call is answered, or a message handed on. A call that fails with its connection is told one of
the causes for which the connection may be given up. -/
def Effect.Tells (gives : ConnectionError → Prop) : Effect → Prop
  | .answer _ (.error (.connectionLost cause)) => gives cause
  | .answer .. | .deliver .. => True
  | _ => False

/-- A goodbye to the broker, or none, before the connection is closed, if there was one. -/
inductive Farewell (linked : Bool) : List Effect → Prop
  | silent : Farewell linked []
  | closes : Farewell linked [.close]
  | tells (h : linked = true) (p : Disconnect) (bytes : Bytes) :
    Farewell linked [.write none (.disconnect p) bytes]
  | tellsAndCloses (h : linked = true) (p : Disconnect) (bytes : Bytes) :
    Farewell linked [.write none (.disconnect p) bytes, .close]

structure Front where
  now : Time
  config : Option Config
  connection : ConnectionState
  awaitPingResp : Bool
  lastOutgoing : Time
  linked : Bool
  epoch : Nat
  timers : Timers
  lastTimerId : Nat
  keepAlive : Duration
  effects : List Effect

namespace Front

def tell (f : Front) (out : List Effect) : Front := { f with effects := f.effects ++ out }

def wrote (f : Front) (call : Option CallId) (packet : Packet) (bytes : Bytes) : Front :=
  { f with lastOutgoing := f.now, effects := f.effects ++ [.write call packet bytes] }

def schedule (f : Front) (timer : Timer) (delay : Duration) : Front :=
  { f with
    lastTimerId := f.lastTimerId + 1
    timers := f.timers.set timer { id := f.lastTimerId + 1, deadline := f.now + delay.nanos } }

def cancel (f : Front) (timer : Timer) : Front := { f with timers := f.timers.erase timer }

/-- A connection that is gone takes its timers with it. -/
def shed (f : Front) : Front :=
  { f with
    connection := .disconnected
    awaitPingResp := false
    linked := false
    epoch := f.epoch + 1
    timers := {} }

def parted (f : Front) (said : List Effect) (lastOutgoing : Time) : Front :=
  { f.shed with lastOutgoing, effects := f.effects ++ said }

def greeted (f : Front) (call : Option CallId) (p : Connect) (bytes : Bytes) : Front :=
  { f with linked := true }.wrote call (.connect p) bytes

def pingGrace (f : Front) : Duration := f.config.elim f.keepAlive Config.pingGrace

end Front

def Engine.front (e : Engine) : Front where
  now := e.now
  config := e.config
  connection := e.session.connection
  awaitPingResp := e.session.awaitPingResp
  lastOutgoing := e.session.lastOutgoing
  linked := e.link.isSome
  epoch := e.epoch
  timers := e.timers
  lastTimerId := e.lastTimerId
  keepAlive := e.keepAlive
  effects := e.effects

/-- One thing that a command does to the connection, the timers or the world, when it may give the
connection up for the causes that `gives` has. -/
inductive Move (c : Command) (gives : ConnectionError → Prop) (f : Front) : Front → Prop
  | tells {out : List Effect} (tells : ∀ x ∈ out, x.Tells gives) : Move c gives f (f.tell out)
  | writes {call : Option CallId} {packet : Packet} (bytes : Bytes) (linked : f.linked = true)
    (fits : packet.isAck = true ∨ f.connection = .connected ∧ packet.IsOfSession) :
    Move c gives f (f.wrote call packet bytes)
  | arms (timer : Timer) (ne : timer ≠ .pingResp) (delay : Duration) :
    Move c gives f (f.schedule timer delay)
  | disarms (timer : Timer) : Move c gives f (f.cancel timer)
  | pings (bytes : Bytes) (linked : f.linked = true) (connected : f.connection = .connected) :
    Move c gives f
      ({ f.wrote none .pingReq bytes with awaitPingResp := true }.schedule .pingResp f.pingGrace)
  | pongs : Move c gives f { f with awaitPingResp := false }
  | accepts {config : Config} {p : ConnAck} (asked : c = .incoming f.epoch (.connAck p))
    (success : p.code = .success) (connecting : f.connection = .connecting)
    (configured : f.config = some config) (quiet : f.awaitPingResp = false) :
    Move c gives f
      { f with connection := .connected, keepAlive := Engine.agreedKeepAlive config p }
  | parts {said : List Effect} (farewell : Farewell f.linked said) {lastOutgoing : Time}
    (sent : lastOutgoing = f.lastOutgoing ∨ lastOutgoing = f.now) :
    Move c gives f (f.parted said lastOutgoing)
  | attempts (config : Option Config) (keepAlive : Duration) (host : String) (port : UInt16)
    (disconnected : f.connection = .disconnected) (unlinked : f.linked = false)
    (quiet : f.awaitPingResp = false) :
    Move c gives f { f with
      config
      keepAlive
      connection := .connecting
      epoch := f.epoch + 1
      effects := f.effects ++ [.attempt (f.epoch + 1) host port] }

abbrev Moves (c : Command) (gives : ConnectionError → Prop) : Front → Front → Prop :=
  Relation.ReflTransGen (Move c gives)

theorem effects_of_move {c : Command} {gives : ConnectionError → Prop} {f g : Front}
    (h : Move c gives f g) : ∃ out, g.effects = f.effects ++ out := by
  cases h with
  | arms | disarms | pongs | accepts => exact ⟨[], (List.append_nil _).symm⟩
  | tells | writes | pings | parts | attempts => exact ⟨_, rfl⟩

theorem moves_trace {c : Command} {gives : ConnectionError → Prop} {f g : Front}
    {motive : List Effect → Front → Prop} (start : motive [] f)
    (step : ∀ {out k k'}, motive out k → Move c gives k k' →
      ∃ more, k'.effects = k.effects ++ more ∧ motive (out ++ more) k')
    (h : Moves c gives f g) : ∃ out, g.effects = f.effects ++ out ∧ motive out g := by
  induction h with
  | refl => exact ⟨[], (List.append_nil _).symm, start⟩
  | tail _ move ih =>
    obtain ⟨out, effects, here⟩ := ih
    obtain ⟨more, effects', there⟩ := step here move
    exact ⟨out ++ more, by rw [effects', effects, List.append_assoc], there⟩

theorem effects_of_moves {c : Command} {gives : ConnectionError → Prop} {f g : Front}
    (h : Moves c gives f g) : ∃ out, g.effects = f.effects ++ out := by
  obtain ⟨out, effects, -⟩ := moves_trace (motive := fun _ _ => True) trivial
    (fun _ move => (effects_of_move move).imp fun _ effects => ⟨effects, trivial⟩) h
  exact ⟨out, effects⟩

namespace Engine

/-- The command finds that the answer to a ping is overdue: its timer ran out, or the next ping
would be due. -/
def TimesOut (e : Engine) : Command → Prop
  | .timer timer id => (e.timers.get? timer).any (·.id == id) = true ∧
    (timer = .pingResp ∨ timer = .keepAlive ∧ e.session.awaitPingResp = true ∧
      e.keepAlive ≤ Duration.between e.session.lastOutgoing e.now)
  | _ => False

def MayGive (e : Engine) (c : Command) (cause : ConnectionError) : Prop :=
  cause = .pingTimeout → e.TimesOut c

section

variable {c : Command} {gives : ConnectionError → Prop} {e d m : Engine} {f : Front}

theorem moves_succeed (e : Engine) (call : CallId) (r : Reply) :
    Moves c gives e.front (e.succeed call r).front :=
  .single (.tells (List.forall_mem_singleton.2 trivial))

theorem moves_fail (e : Engine) (call : CallId) (err : ClientError)
    (tells : (Effect.answer call (.error err)).Tells gives) :
    Moves c gives e.front (e.fail call err).front :=
  .single (.tells (List.forall_mem_singleton.2 tells))

theorem moves_failPending (e : Engine) (p : Pending) {err : ClientError}
    (tells : ∀ call, (Effect.answer call (.error err)).Tells gives) :
    Moves c gives e.front (e.failPending p err).front := by
  unfold failPending
  split
  · exact moves_fail e _ err (tells _)
  · exact .refl

theorem moves_abort (quiet : m.session.awaitPingResp = false) (err : ClientError)
    (tells : ∀ call, (Effect.answer call (.error err)).Tells gives)
    (t : SubscriptionTable HandlerId) :
    Moves c gives m.front ({ (m.failAll err).cleanSession with subscriptions := t }).front := by
  let out := (m.pending.values.filterMap Pending.call?).map (fun c => Effect.answer c (.error err))
    ++ m.backlog.map fun c => .answer c.id (.error err)
  have told : ({ (m.failAll err).cleanSession with subscriptions := t } : Engine).front
      = m.front.tell out := by
    rw [failAll_eq]
    simp only [front, cleanSession, withSession, Session.clean, Front.tell, quiet, out,
      List.append_assoc]
  rw [told]
  refine .single (.tells fun x hx => ?_)
  simp only [out, List.mem_append, List.mem_map] at hx
  obtain ⟨call, -, rfl⟩ | ⟨call, -, rfl⟩ := hx
  · exact tells call
  · exact tells call.id

theorem front_teardown (m : Engine) :
    ∃ close, (close = [] ∨ close = [.close]) ∧
      m.teardown.front = { m.front.shed with effects := m.effects ++ close } := by
  obtain ⟨effects, rfl | rfl, he⟩ := m.teardown_eq
  · refine ⟨[], .inl rfl, ?_⟩
    rw [he, List.append_nil]
    rfl
  · exact ⟨[.close], .inr rfl, he ▸ rfl⟩

theorem parts_of_shed (same : m.front.shed = f.shed) : Move c gives f m.teardown.front := by
  obtain ⟨close, closes, he⟩ := m.front_teardown
  have effects : m.effects = f.effects := congrArg Front.effects same
  have torn : m.teardown.front = f.parted close f.lastOutgoing := by
    rw [he, same, effects]
    rfl
  rw [torn]
  obtain rfl | rfl := closes
  · exact .parts .silent (.inl rfl)
  · exact .parts .closes (.inl rfl)

theorem parts_of_told {p : Disconnect} {bytes : Bytes} {lastOutgoing : Time}
    (linked : f.linked = true) (sent : lastOutgoing = f.lastOutgoing ∨ lastOutgoing = f.now)
    (same : m.front.shed = f.parted [.write none (.disconnect p) bytes] lastOutgoing) :
    Move c gives f m.teardown.front := by
  obtain ⟨close, closes, he⟩ := m.front_teardown
  have effects : m.effects = f.effects ++ [.write none (.disconnect p) bytes] :=
    congrArg Front.effects same
  have torn : m.teardown.front
      = f.parted ([.write none (.disconnect p) bytes] ++ close) lastOutgoing := by
    rw [he, same, effects, List.append_assoc]
    rfl
  rw [torn]
  obtain rfl | rfl := closes
  · exact .parts (.tells linked p bytes) sent
  · exact .parts (.tellsAndCloses linked p bytes) sent

theorem moves_connectionLost (parts : Move c gives f m.teardown.front)
    (alive : m.session.connection = .disconnected → m.link.isSome) {cause : ConnectionError}
    (given : gives cause) : Moves c gives f (m.connectionLost cause).front := by
  have quiet : m.teardown.session.awaitPingResp = false := rfl
  refine .head parts ?_
  unfold connectionLost
  split
  · next gone =>
    have linked := alive gone.1
    rw [Option.isNone_iff_eq_none.1 gone.2] at linked
    cases linked
  · dsimp only
    split
    · next call _ =>
      have tells : (Effect.answer call (.error (.ofConnection cause))).Tells gives := by
        cases cause with
        | connectionRefused | connectTimeout | transport => trivial
        | _ => exact given
      exact (moves_fail { m.teardown with connectCall := none } call _ tells).trans
        (moves_abort (m := { m.teardown with connectCall := none }.fail call (.ofConnection cause))
          quiet .notConnected (fun _ => trivial) _)
    · exact .single (.arms .reconnect (by decide) _)
    · exact moves_abort quiet (.connectionLost cause) (fun _ => given) _

theorem moves_lost (same : m.front.shed = f.shed)
    (alive : m.session.connection = .disconnected → m.link.isSome) {cause : ConnectionError}
    (given : gives cause) : Moves c gives f (m.connectionLost cause).front :=
  moves_connectionLost (parts_of_shed same) alive given

theorem moves_lost_of_unlinked (unlinked : e.session.connection = .disconnected → e.link = none)
    {cause : ConnectionError} (given : gives cause) :
    Moves c gives e.front (e.connectionLost cause).front := by
  by_cases gone : e.session.connection = .disconnected
  · rw [connectionLost_of_gone gone (unlinked gone)]
  · exact moves_lost rfl (fun h => absurd h gone) given

theorem write_fronts (e : Engine) (p : Packet) :
    (∃ d bytes, e.write p = (d, .ok ()) ∧ e.link.isSome ∧
      d.front = e.front.wrote (e.requester p) p bytes) ∨
    ∃ err, e.write p = (e, .error err) := by
  obtain ⟨link, bytes, linked, -, -, he⟩ | ⟨link, err, -, -, he⟩ | ⟨-, err, -, he⟩ :=
    e.write_cases p
  · refine .inl ⟨_, bytes, he, by rw [linked]; rfl, ?_⟩
    simp only [front, Front.wrote, linked, Option.isSome_some]
  · exact .inr ⟨_, he⟩
  · exact .inr ⟨_, he⟩

theorem moves_write (c : Command) (gives : ConnectionError → Prop) (e : Engine) (p : Packet)
    (fits : p.isAck = true ∨ e.session.connection = .connected ∧ p.IsOfSession) :
    (∃ d, e.write p = (d, .ok ()) ∧ Moves c gives e.front d.front) ∨
    ∃ err, e.write p = (e, .error err) := by
  refine e.write_fronts p |>.imp_left ?_
  rintro ⟨d, bytes, he, linked, hd⟩
  refine ⟨d, he, ?_⟩
  rw [hd]
  exact .single (.writes bytes linked fits)

theorem moves_writeOrLose {p : Packet}
    (fits : p.isAck = true ∨ e.session.connection = .connected ∧ p.IsOfSession)
    (alive : e.session.connection = .disconnected → e.link.isSome)
    (given : ∀ err, gives (.transport err)) :
    Moves c gives e.front (e.writeOrLose p).front := by
  unfold writeOrLose
  obtain ⟨d, he, moves⟩ | ⟨err, he⟩ := moves_write c gives e p fits
  all_goals rw [he]
  · exact moves
  · exact moves_lost rfl alive (given err)

theorem moves_dropPending (e : Engine) (k : UInt16) (p : Pending) (err : WireError) :
    Moves c gives e.front (e.dropPending k p (.encoding err)).front := by
  rw [dropPending_eq]
  refine .single (.tells fun x hx => ?_)
  obtain ⟨call, -, rfl⟩ := List.mem_map.1 hx
  trivial

theorem moves_transmit (connected : e.session.connection = .connected) (k : UInt16)
    {packet : Packet} (fits : packet.IsOfSession) (p : Pending)
    (given : ∀ err, gives (.transport err)) :
    Moves c gives e.front (e.transmit k packet p).front := by
  let waiting : Engine := { e with pending := e.pending.insert k p }
  change Moves c gives waiting.front _
  unfold transmit
  obtain ⟨d, he, moves⟩ | ⟨err, he⟩ :=
    moves_write c gives waiting packet (.inr ⟨connected, fits⟩)
  all_goals rw [he]
  · exact moves.trans (.single (.arms (.ack k) (by simp) _))
  · have lost : Moves c gives waiting.front (waiting.connectionLost (.transport err)).front :=
      moves_lost rfl (by simp [waiting, connected]) (given err)
    cases err with
    | encoding err => exact waiting.moves_dropPending k p err
    | _ => exact lost

theorem moves_start {phase : Phase} {mk : UInt16 → Packet} {s : Session} {packet : Packet}
    (hs : e.session.start e.now phase mk = (s, .ok packet))
    (fits : ∀ k, k ≠ 0 → (mk k).IsOfSession) (t : SubscriptionTable HandlerId) (p : Pending)
    (given : ∀ err, gives (.transport err)) :
    let d : Engine := { e.withSession s with subscriptions := t }
    Moves c gives e.front (d.transmit (packetIdOf packet) packet p).front := by
  obtain ⟨k, connected, -, ne, rfl, rfl⟩ := Session.start_eq_ok hs
  exact moves_transmit (e := { e.withSession (e.session.track e.now k (mk k) phase) with
    subscriptions := t }) connected _ (fits k ne) p given

theorem moves_refused {phase : Phase} {mk : UInt16 → Packet} {s : Session} {err : SessionError}
    (hs : e.session.start e.now phase mk = (s, .error err)) (t : SubscriptionTable HandlerId)
    (call : CallId) :
    Moves c gives e.front
      ({ e.withSession s with subscriptions := t }.fail call (.ofSession err)).front := by
  obtain ⟨rfl, -⟩ := Session.start_eq_error hs
  refine moves_fail { e with subscriptions := t } call _ ?_
  cases err <;> trivial

theorem moves_sendUnacknowledged (connected : e.session.connection = .connected) (call : CallId)
    {packet : Packet} (fits : packet.IsOfSession) (given : ∀ err, gives (.transport err)) :
    Moves c gives e.front (e.sendUnacknowledged call packet).front := by
  unfold sendUnacknowledged
  obtain ⟨d, he, moves⟩ | ⟨err, he⟩ :=
    moves_write c gives e packet (.inr ⟨connected, fits⟩)
  all_goals rw [he]
  · exact moves.trans (d.moves_succeed call .sent)
  · have failed : ∀ why, Moves c gives e.front (e.fail call (.encoding why)).front :=
      fun why => e.moves_fail call _ trivial
    have lost : Moves c gives e.front
        ((e.fail call .notConnected).connectionLost (.transport err)).front :=
      (e.moves_fail call .notConnected trivial).trans
        (moves_lost rfl (fun gone => by cases connected.symm.trans gone) (given err))
    cases err with
    | encoding err => exact failed err
    | _ => exact lost

theorem moves_sendCall (connected : e.session.connection = .connected) (call : Call)
    (given : ∀ err, gives (.transport err)) :
    Moves c gives e.front (e.sendCall call).front := by
  cases call with
  | publish id p =>
    simp only [sendCall, Session.send, Session.sendPublish]
    by_cases hq : p.qos = .atMostOnce
    · simp only [hq, connected, if_true]
      exact moves_sendUnacknowledged connected id (by simp [Packet.IsOfSession]) given
    · simp only [hq, if_false]
      rcases hs : e.session.start e.now .sent
        fun k => .publish { p with packetId := k, dup := false } with ⟨s, err | packet⟩
      · exact moves_refused hs e.subscriptions id
      · exact moves_start hs (fun k ne => by simp [Packet.IsOfSession, ne, hq]) e.subscriptions _
          given
  | subscribe id p handler =>
    simp only [sendCall, Session.send]
    rcases hs : e.session.start e.now .subscribing fun k => .subscribe { p with packetId := k }
      with ⟨s, err | packet⟩
    · exact moves_refused hs e.subscriptions id
    · exact moves_start hs (fun _ ne => ne) _ _ given
  | unsubscribe id p =>
    simp only [sendCall, Session.send]
    rcases hs : (e.unsubscribeAll p.filters).session.start (e.unsubscribeAll p.filters).now
      .unsubscribing fun k => .unsubscribe { p with packetId := k } with ⟨s, err | packet⟩
    · exact moves_refused hs (e.subscriptions.eraseAll p.filters) id
    · exact moves_start hs (fun _ ne => ne) (e.subscriptions.eraseAll p.filters) _ given

theorem moves_drainBacklog (e : Engine) (given : ∀ err, gives (.transport err)) :
    Moves c gives e.front e.drainBacklog.front :=
  drainLoop_induction (motive := fun d => Moves c gives e.front d.front) e.backlog.length .refl
    fun d call rest moves connected _ _ =>
      moves.trans (moves_sendCall (e := { d with backlog := rest }) connected call given)

theorem moves_request (e : Engine) (call : Call) (given : ∀ err, gives (.transport err)) :
    Moves c gives e.front (e.request call false).front := by
  unfold request
  split
  · next connected =>
    split
    · exact .refl
    · exact moves_sendCall (by simpa [isConnected] using connected) call given
  · split
    · exact .refl
    · exact e.moves_fail call.id .notConnected trivial

theorem moves_cancelCall (e : Engine) (call : CallId) (given : ∀ err, gives (.transport err)) :
    Moves c gives e.front (e.cancelCall call).front := by
  unfold cancelCall
  split
  · next k p _ =>
    exact .head (.disarms (.ack k)) (moves_drainBacklog
      (((e.erasePending k).forget k).cancelTimer (.ack k)) given)
  · exact .refl

theorem moves_published (e : Engine) (k : UInt16) (ack : PublishAck)
    (given : ∀ err, gives (.transport err)) :
    Moves c gives e.front (e.published k ack).front := by
  unfold published
  refine .head (.disarms (.ack k)) (Relation.ReflTransGen.trans ?_ (moves_drainBacklog _ given))
  split
  · exact moves_succeed ((e.cancelTimer (.ack k)).erasePending k) _ _
  · exact moves_failPending ((e.cancelTimer (.ack k)).erasePending k) _ fun _ => by trivial
  · exact .refl

theorem moves_subscribed (e : Engine) (p : SubAck) (given : ∀ err, gives (.transport err)) :
    Moves c gives e.front (e.subscribed p).front := by
  let acked := (e.cancelTimer (.ack p.packetId)).erasePending p.packetId
  unfold subscribed
  refine .head (.disarms (.ack p.packetId))
    (Relation.ReflTransGen.trans ?_ (moves_drainBacklog _ given))
  split
  · exact (acked.unsubscribeAll _).moves_succeed _ _
  · exact .refl
  · exact acked.moves_failPending _ fun _ => by trivial
  · exact .refl

theorem moves_unsubscribed (e : Engine) (p : UnsubAck) (given : ∀ err, gives (.transport err)) :
    Moves c gives e.front (e.unsubscribed p).front := by
  let acked := (e.cancelTimer (.ack p.packetId)).erasePending p.packetId
  unfold unsubscribed
  refine .head (.disarms (.ack p.packetId))
    (Relation.ReflTransGen.trans ?_ (moves_drainBacklog _ given))
  split
  · exact acked.moves_succeed _ _
  · exact acked.moves_failPending _ fun _ => by trivial
  · exact .refl

theorem moves_dispatch (e : Engine) (p : Publish) :
    Moves c gives e.front (e.dispatch p).front := by
  rw [dispatch_eq]
  refine .single (.tells fun x hx => ?_)
  obtain ⟨handler, -, rfl⟩ := List.mem_map.1 hx
  trivial

theorem moves_replied (e : Engine) {reply : Option Packet}
    (ack : ∀ packet, reply = some packet → packet.isAck = true)
    (given : ∀ err, gives (.transport err)) :
    Moves c gives e.front (e.replied reply).front := by
  cases reply with
  | none => exact .refl
  | some packet =>
    rw [replied]
    split
    · exact .refl
    · next linked =>
      refine moves_writeOrLose (.inl (ack packet rfl)) (fun _ => ?_) given
      simpa [Option.isSome_iff_ne_none] using linked

theorem moves_expire (connected : e.session.connection = .connected) (k : UInt16)
    (policy : TimeoutPolicy) (given : ∀ err, gives (.transport err))
    (late : gives (.transactionTimeout k)) :
    Moves c gives e.front (e.expire k policy).front := by
  let gone := e.erasePending k
  have told : ∃ d : Engine, Moves c gives e.front d.front ∧ d.session = e.session ∧
      e.expire k .drop = d.drainBacklog ∧
      e.expire k .reset = d.connectionLost (.transactionTimeout k) := by
    unfold expire
    dsimp only
    split
    · next id _ =>
      exact ⟨gone.fail id (.publishTimeout k), gone.moves_fail id _ trivial, rfl, rfl, rfl⟩
    · next id paths _ =>
      exact ⟨(gone.unsubscribeAll paths).fail id (.subscribeTimeout k),
        (gone.unsubscribeAll paths).moves_fail id _ trivial, rfl, rfl, rfl⟩
    · next other _ _ _ =>
      refine ⟨gone.failPending other (.transactionTimeout k),
        gone.moves_failPending other fun _ => trivial, ?_, rfl, rfl⟩
      unfold failPending
      split <;> rfl
    · exact ⟨gone, .refl, rfl, rfl, rfl⟩
  obtain ⟨d, moves, session, dropped, reset⟩ := told
  cases policy with
  | drop => exact dropped ▸ moves.trans (d.moves_drainBacklog given)
  | reset =>
    exact reset ▸ moves.trans (moves_lost rfl (by simp [session, connected]) late)

theorem isOfSession_resend {t : Transaction} {k : UInt16} (fits : t.Fits k) :
    t.resend.isAck = true ∨ t.resend.IsOfSession := by
  have ne := fits.ne_zero
  obtain ⟨p, -, -, hid, hq, he⟩ | ⟨p, -, -, -, he⟩ | ⟨p, -, -, hid, he⟩ | ⟨p, -, -, hid, he⟩ :=
    fits.resend_cases
  all_goals rw [he]
  · right
    simp only [Packet.IsOfSession, hid, ne, hq]
  · exact .inl rfl
  · exact .inr (by simpa [Packet.IsOfSession, hid] using ne)
  · exact .inr (by simpa [Packet.IsOfSession, hid] using ne)

theorem moves_ackTimedOut (connected : e.session.connection = .connected)
    (sound : e.session.IsSound) (k : UInt16) (given : ∀ err, gives (.transport err))
    (late : gives (.transactionTimeout k)) :
    Moves c gives e.front (e.ackTimedOut k).front := by
  unfold ackTimedOut
  split
  · exact moves_drainBacklog ((e.erasePending k).forget k) given
  · split
    · exact .refl
    · next config _ =>
      obtain ⟨-, he⟩ | ⟨t, ht, he | ⟨-, he⟩⟩ :=
        Session.retransmit_cases e.session e.now k config.maxRetries
      all_goals rw [he]
      · exact .refl
      · exact moves_expire (e := e.forget k) connected k _ given late
      · have fits := (isOfSession_resend (sound.fits ht)).imp_right
          fun fits => (⟨connected, fits⟩ : e.session.connection = .connected ∧ _)
        obtain ⟨d, he', moves⟩ | ⟨err, he'⟩ := moves_write c gives
          (e.withSession { e.session with
            outgoing := e.session.outgoing.insert k
              { t with retries := t.retries + 1, lastSent := e.now } })
          t.resend fits
        all_goals simp only [he']
        · exact moves.trans (.single (.arms (.ack k) (by simp) _))
        · refine moves_lost (f := e.front) ?_ (fun gone => ?_) (given err)
          · rfl
          · cases connected.symm.trans gone

theorem moves_ping (c : Command) (gives : ConnectionError → Prop) (e : Engine) {grace : Duration}
    (graced : grace = e.front.pingGrace) (connected : e.session.connection = .connected) :
    let pinged := e.withSession { e.session with awaitPingResp := true }
    (∃ d, pinged.write .pingReq = (d, .ok ()) ∧ d.config = e.config ∧ d.keepAlive = e.keepAlive ∧
      Move c gives e.front (d.schedule .pingResp grace).front) ∨
    ∃ err, pinged.write .pingReq = (pinged, .error err) := by
  intro pinged
  refine (pinged.write_fronts .pingReq).imp_left ?_
  rintro ⟨d, bytes, he, linked, hd⟩
  refine ⟨d, he, congrArg Front.config hd, congrArg Front.keepAlive hd, ?_⟩
  have armed : (d.schedule .pingResp grace).front
      = { e.front.wrote none .pingReq bytes with awaitPingResp := true }.schedule .pingResp
        e.front.pingGrace := by
    change d.front.schedule .pingResp grace = _
    rw [hd, graced]
    rfl
  rw [armed]
  exact .pings bytes linked connected

theorem moves_keepAliveDue (connected : e.session.connection = .connected)
    (given : ∀ err, gives (.transport err))
    (overdue : e.session.awaitPingResp = true →
      e.keepAlive ≤ Duration.between e.session.lastOutgoing e.now → gives .pingTimeout) :
    Moves c gives e.front e.keepAliveDue.front := by
  have alive : e.session.connection = .disconnected → e.link.isSome := by simp [connected]
  unfold keepAliveDue
  dsimp only
  split
  · exact .single (.arms .keepAlive (by decide) _)
  · next due =>
    have due' := Nat.not_lt.1 due
    rw [Session.send, Session.sendPing, if_pos connected]
    cases waits : e.session.awaitPingResp with
    | true => exact moves_lost rfl alive (overdue waits due')
    | false =>
      obtain ⟨d, he, config, keepAlive, pings⟩ | ⟨err, he⟩ :=
        moves_ping c gives e rfl connected
      all_goals simp only [Bool.false_eq_true, if_false, he]
      · rw [config, keepAlive]
        exact .head pings (.single (.arms .keepAlive (by decide) _))
      · refine moves_lost (f := e.front) ?_ ?_ (given err)
        · rfl
        · exact alive

theorem moves_replayAll (ackTimeout : Duration) (packets : List Packet)
    (connected : e.session.connection = .connected)
    (fits : ∀ p ∈ packets, p.isAck = true ∨ p.IsOfSession)
    (given : ∀ err, gives (.transport err)) :
    Moves c gives e.front (e.replayAll ackTimeout packets).1.front := by
  induction packets generalizing e with
  | nil => exact .refl
  | cons packet rest ih =>
    have fits' := (fits packet List.mem_cons_self).imp_right fun fits =>
      (⟨connected, fits⟩ : e.session.connection = .connected ∧ packet.IsOfSession)
    rw [replayAll]
    obtain ⟨d, bytes, he, linked, hd⟩ | ⟨err, he⟩ := e.write_fronts packet
    all_goals rw [he]
    · have written : Move c gives e.front d.front := hd ▸ .writes bytes linked fits'
      have here : d.session.connection = .connected :=
        (congrArg Front.connection hd).trans connected
      refine .head written (.head (.arms (.ack (packetIdOf packet)) (by simp) ackTimeout) ?_)
      exact ih (e := d.schedule (.ack (packetIdOf packet)) ackTimeout) here
        fun p hp => fits p (List.mem_cons_of_mem _ hp)
    · exact moves_lost rfl (fun gone => by cases connected.symm.trans gone) (given err)

theorem moves_resubscribe (e : Engine) (given : ∀ err, gives (.transport err)) :
    Moves c gives e.front e.resubscribe.front := by
  unfold resubscribe
  split
  · exact .refl
  · simp only [Session.send]
    rcases hs : e.session.start e.now .subscribing
      fun k => .subscribe { filters := e.subscriptions.filters, packetId := k }
      with ⟨s, err | packet⟩
    · obtain ⟨rfl, -⟩ := Session.start_eq_error hs
      exact .refl
    · exact moves_start hs (fun _ ne => ne) e.subscriptions _ given

theorem moves_resume (connected : e.session.connection = .connected) (sound : e.session.IsSound)
    (ackTimeout : Duration) (given : ∀ err, gives (.transport err)) :
    Moves c gives e.front (e.resume ackTimeout).front := by
  let taken := e.withSession (e.session.replay e.now).1
  have here : taken.session.connection = .connected := connected
  have fits : ∀ p ∈ (e.session.replay e.now).2, p.isAck = true ∨ p.IsOfSession := by
    intro p hp
    obtain ⟨k, t, ht, rfl⟩ := Session.mem_replay.1 hp
    exact isOfSession_resend (sound.fits ht)
  have replayed := moves_replayAll (c := c) (e := taken) ackTimeout _ here fits given
  obtain ⟨link, timers, lastTimerId, lastOutgoing, out, he, -, -⟩ | ⟨d, he, -⟩ :=
    taken.replayAll_cases ackTimeout (e.session.replay e.now).2
  all_goals rw [he] at replayed
  · rw [resume_of_replayed he]
    exact (replayed.trans (moves_resubscribe _ given)).trans (moves_drainBacklog _ given)
  · rw [resume_of_lost he]
    exact replayed

theorem moves_connected (sound : e.session.IsSound) {config : Config}
    (configured : e.config = some config) {p : ConnAck}
    (accepts : Moves c gives f { e.front with
      connection := .connected, keepAlive := agreedKeepAlive config p })
    (connected : e.session.connection = .connected) (given : ∀ err, gives (.transport err)) :
    Moves c gives f (e.connected p).front := by
  have configured' : (e.cancelTimer .connect).config = some config := configured
  let d := e.accepted config p
  have opened : Moves c gives f d.front := by
    have cancelled : Move c gives
        { e.front with connection := .connected, keepAlive := agreedKeepAlive config p }
        ({ e.front with connection := .connected, keepAlive := agreedKeepAlive config p }.cancel
          .connect) := .disarms .connect
    refine accepts.trans (.head cancelled ?_)
    rw [← connected]
    simp only [d, accepted]
    split
    · exact .refl
    · exact .single (.arms .keepAlive (by decide) _)
  have here : d.session.connection = .connected := by
    simp only [d, accepted]
    split <;> exact connected
  have kept : d.session.IsSound := by
    simp only [d, accepted]
    split <;> exact sound.congr rfl rfl
  let stableAfter :=
    if (agreedKeepAlive config p).isZero then config.ackTimeout else agreedKeepAlive config p
  have greeted : ∀ call, Moves c gives d.front (({ d with connectCall := none }.supervise
      config.reconnect stableAfter).succeed call (.connAck p)).front := fun call =>
    moves_succeed ({ d with connectCall := none }.supervise config.reconnect stableAfter) call _
  have resumed : Moves c gives d.front
      ((d.supervise none stableAfter).resume config.ackTimeout).front :=
    moves_resume (e := d.supervise none stableAfter) here kept config.ackTimeout given
  refine opened.trans ?_
  simp only [Engine.connected, configured']
  split
  · exact greeted _
  · exact resumed

end

end Engine

end MqttClient
