import MqttClient.Proofs.Engine.KeepAlive
import MqttClient.Proofs.Engine.Reactions

/-! The grace of a ping. An engine that gives its connection up because a ping was not answered has
waited for the answer: for the configured grace, or for the keep alive in use, whichever is shorter.
That is the whole grace if it is no longer than the keep alive in use, and if one that is not
configured leaves the broker no longer a keep alive than the configured one. -/

namespace MqttClient

def Effect.isPing : Effect → Bool
  | .write _ .pingReq _ => true
  | _ => false

namespace Engine

def lastPing (log : Log) : Option Time :=
  log.foldl (fun last entry => if entry.2.isPing then some entry.1 else last) none

def pinged (now : Time) (last : Option Time) (out : List Effect) : Option Time :=
  if out.any Effect.isPing then some now else last

/-- The engine gives its connection up for want of an answer to a ping, or tells a call so. -/
def GivesUp (e : Engine) (c : Command) : Prop :=
  e.TimesOut c ∨ ∃ call, .answer call (.error (.connectionLost .pingTimeout)) ∈
    (e.handle c).effects.drop e.effects.length

/-- How long the answer to a ping may take: as configured, or else as long as the keep alive in
use. -/
def graceInUse (config : Config) (p : ConnAck) : Duration :=
  config.pingGraceOption.getD (agreedKeepAlive config p)

/-- The keep alive in use leaves time for the grace that is configured, or else is no longer than
the configured one. -/
def LeavesGrace (config : Config) (p : ConnAck) : Prop :=
  match config.pingGraceOption with
  | some grace => grace ≤ agreedKeepAlive config p
  | none => agreedKeepAlive config p ≤ config.keepAlive

theorem graceInUse_le {config : Config} {p : ConnAck} (h : LeavesGrace config p) :
    (graceInUse config p).nanos
      ≤ min config.pingGrace.nanos (agreedKeepAlive config p).nanos := by
  unfold LeavesGrace at h
  unfold graceInUse Config.pingGrace
  cases set : config.pingGraceOption with
  | some grace =>
    rw [set] at h
    exact Nat.le_min.2 ⟨Nat.le_refl _, h⟩
  | none =>
    rw [set] at h
    exact Nat.le_min.2 ⟨h, Nat.le_refl _⟩

/-- A ping that was not answered was the last one, and its timer runs from it. -/
structure Graced (last : Option Time) (f : Front) : Prop where
  lastOutgoing_le : f.lastOutgoing ≤ f.now
  sent : f.awaitPingResp = true → ∃ sent, last = some sent ∧ sent ≤ f.lastOutgoing ∧
    ∀ a, f.timers.get? .pingResp = some a → a.deadline = sent + f.pingGrace.nanos

section

variable {past past₀ : List Command} {e e₀ d : Engine} {c : Command} {log log₀ : Log}
  {gives : ConnectionError → Prop} {f g : Front} {last : Option Time} {out : List Effect}
  {config : Config} {p : ConnAck}

theorem lastPing_append (log : Log) (now : Time) (out : List Effect) :
    lastPing (log ++ out.map (now, ·)) = pinged now (lastPing log) out := by
  induction out generalizing log with
  | nil => rw [List.map_nil, List.append_nil]; rfl
  | cons x rest ih =>
    have split : log ++ (x :: rest).map (now, ·) = log ++ [(now, x)] ++ rest.map (now, ·) := by simp
    rw [split, ih]
    cases hx : x.isPing <;> simp [pinged, lastPing, hx]

theorem pinged_append (now : Time) (last : Option Time) (out out' : List Effect) :
    pinged now (pinged now last out) out' = pinged now last (out ++ out') := by
  unfold pinged
  rw [List.any_append]
  cases out.any Effect.isPing <;> cases out'.any Effect.isPing <;> rfl

theorem pinged_of_none (now : Time) (last : Option Time) (none : out.any Effect.isPing = false) :
    pinged now last out = last := by
  rw [pinged, none]
  rfl

theorem Graced.of_quiet (le : f.lastOutgoing ≤ f.now) (quiet : f.awaitPingResp = false) :
    Graced last f :=
  ⟨le, fun waits => by cases quiet.symm.trans waits⟩

theorem not_isPing_of_tells (tells : ∀ x ∈ out, x.Tells gives) : out.any Effect.isPing = false := by
  refine List.any_eq_false.2 fun x hx => ?_
  have told := tells x hx
  cases x with
  | write => exact absurd told id
  | _ => exact Bool.false_ne_true

theorem Graced.move (h : Graced last f) (move : Move c gives f g) :
    ∃ out, g.effects = f.effects ++ out ∧ g.now = f.now ∧ Graced (pinged f.now last out) g := by
  have still := (List.append_nil f.effects).symm
  cases move with
  | tells tells =>
    refine ⟨_, rfl, rfl, ?_⟩
    rw [pinged_of_none f.now last (not_isPing_of_tells tells)]
    exact ⟨h.lastOutgoing_le, h.sent⟩
  | @writes call packet bytes linked fits =>
    have other : Effect.isPing (.write call packet bytes) = false := by
      obtain ack | ⟨-, fits⟩ := fits
      · cases packet with
        | pingReq => cases ack
        | _ => rfl
      · cases packet with
        | pingReq => exact absurd fits id
        | _ => rfl
    refine ⟨[.write call packet bytes], rfl, rfl, ?_⟩
    rw [pinged_of_none f.now last (by simp [other])]
    refine ⟨Nat.le_refl _, fun waits => ?_⟩
    obtain ⟨sent, he, le, deadline⟩ := h.sent waits
    exact ⟨sent, he, Nat.le_trans le h.lastOutgoing_le, deadline⟩
  | arms timer ne delay =>
    refine ⟨[], still, rfl, h.lastOutgoing_le, fun waits => ?_⟩
    obtain ⟨sent, he, le, deadline⟩ := h.sent waits
    refine ⟨sent, he, le, fun a ha => deadline a ?_⟩
    exact (Timers.get?_set_of_ne f.timers _ ne.symm).symm.trans ha
  | disarms timer =>
    refine ⟨[], still, rfl, h.lastOutgoing_le, fun waits => ?_⟩
    obtain ⟨sent, he, le, deadline⟩ := h.sent waits
    exact ⟨sent, he, le, fun a ha => deadline a (Timers.get?_of_erase ha)⟩
  | pings bytes =>
    refine ⟨[.write none .pingReq bytes], rfl, rfl, Nat.le_refl _, fun _ => ?_⟩
    refine ⟨f.now, rfl, Nat.le_refl _, fun a ha => ?_⟩
    cases (Timers.get?_set_self f.timers .pingResp _).symm.trans ha
    rfl
  | pongs => exact ⟨[], still, rfl, .of_quiet h.lastOutgoing_le rfl⟩
  | accepts _ _ _ _ quiet => exact ⟨[], still, rfl, .of_quiet h.lastOutgoing_le quiet⟩
  | parts _ sent =>
    refine ⟨_, rfl, rfl, .of_quiet ?_ rfl⟩
    obtain rfl | rfl := sent
    · exact h.lastOutgoing_le
    · exact Nat.le_refl _
  | attempts _ _ _ _ _ _ quiet => exact ⟨_, rfl, rfl, .of_quiet h.lastOutgoing_le quiet⟩

theorem Graced.moves (h : Graced last f) (moves : Moves c gives f g) :
    ∃ out, g.effects = f.effects ++ out ∧ g.now = f.now ∧ Graced (pinged f.now last out) g := by
  refine moves_trace (motive := fun out k => k.now = f.now ∧ Graced (pinged f.now last out) k)
    ⟨rfl, h⟩ (fun {out k k'} here next => ?_) moves
  obtain ⟨now, here⟩ := here
  obtain ⟨more, effects, now', there⟩ := here.move next
  rw [now, pinged_append] at there
  exact ⟨more, effects, now'.trans now, there⟩

theorem Graced.reacts (h : Graced last e.front)
    (quiet : e.session.connection ≠ .connected → e.session.awaitPingResp = false)
    (reacts : Reacts c e d) :
    ∃ out, d.effects = e.effects ++ out ∧ d.now = e.now ∧
      Graced (pinged e.now last out) d.front := by
  cases reacts with
  | moves _ moves | fails _ moves => exact h.moves moves
  | @greets _ connecting call p bytes front_eq =>
    refine ⟨_, congrArg Front.effects front_eq, congrArg Front.now front_eq, ?_⟩
    rw [front_eq]
    exact .of_quiet (Nat.le_refl _) (quiet (by simp [connecting]))

theorem Elapses.graced (h : Timely past e log) : Graced (lastPing log) e.front := by
  induction h with
  | refl => exact .of_quiet (Nat.le_refl _) rfl
  | @handle past e log c run possible _ ih =>
    have reached := run.reachable
    obtain ⟨out, effects, -, graced⟩ :=
      ih.reacts reached.accounted.settled.posture.awaitPingResp_eq (reached.reacts possible)
    rwa [noted, effects, List.drop_left, lastPing_append]
  | clock now _ le _ ih => exact ⟨Nat.le_trans ih.lastOutgoing_le le, ih.sent⟩
  | @drift past e d log _ drifts now ih =>
    have le : d.session.lastOutgoing ≤ d.now := by
      have before : e.session.lastOutgoing ≤ e.now := ih.lastOutgoing_le
      rw [now]
      cases drifts <;> exact before
    refine ⟨le, ?_⟩
    cases drifts <;> exact ih.sent

def Blames (gives : ConnectionError → Prop) (out : List Effect) : Prop :=
  ∀ call cause, .answer call (.error (.connectionLost cause)) ∈ out → gives cause

theorem blames_of_move (h : Move c gives f g) :
    ∃ out, g.effects = f.effects ++ out ∧ Blames gives out := by
  have still : f.effects = f.effects ++ [] := (List.append_nil _).symm
  have silent : Blames gives [] := fun _ _ told => by cases told
  cases h with
  | tells tells => exact ⟨_, rfl, fun _ _ told => tells _ told⟩
  | writes | pings | attempts =>
    exact ⟨_, rfl, fun _ _ told => by cases List.mem_singleton.1 told⟩
  | arms | disarms | pongs | accepts => exact ⟨[], still, silent⟩
  | parts farewell =>
    refine ⟨_, rfl, fun _ _ told => ?_⟩
    cases farewell <;> simp at told

theorem blames_of_moves (h : Moves c gives f g) :
    ∃ out, g.effects = f.effects ++ out ∧ Blames gives out := by
  refine moves_trace (motive := fun out _ => Blames gives out) (fun _ _ told => by cases told)
    (fun {out k k'} blames move => ?_) h
  obtain ⟨more, effects, blames'⟩ := blames_of_move move
  refine ⟨more, effects, fun call cause told => ?_⟩
  obtain before | now := List.mem_append.1 told
  · exact blames call cause before
  · exact blames' call cause now

theorem timesOut_of_givesUp (reached : Reachable past e) (possible : Possible past e c)
    (gives : e.GivesUp c) : e.TimesOut c := by
  obtain late | ⟨call, told⟩ := gives
  · exact late
  · cases reached.reacts possible with
    | moves _ moves | fails _ moves =>
      obtain ⟨out, effects, blames⟩ := blames_of_moves moves
      have effects' : (e.handle c).effects = e.effects ++ out := effects
      rw [effects', List.drop_left] at told
      exact blames call _ told rfl
    | greets _ _ front_eq =>
      have effects : (e.handle c).effects = e.effects ++ _ := congrArg Front.effects front_eq
      rw [effects, List.drop_left] at told
      cases List.mem_singleton.1 told

theorem exists_armed {timer : Timer} {id : Nat}
    (fires : (e.timers.get? timer).any (·.id == id) = true) :
    ∃ a, e.timers.get? timer = some a := by
  cases armed : e.timers.get? timer with
  | none => simp [armed] at fires
  | some a => exact ⟨a, rfl⟩

theorem waits_of_timesOut (reached : Reachable past e) (late : e.TimesOut c) :
    e.session.connection = .connected ∧ e.session.awaitPingResp = true := by
  have timers := reached.accounted.settled.timers
  cases c with
  | timer timer id =>
    obtain ⟨fires, rfl | ⟨rfl, waits, -⟩⟩ := late
    · obtain ⟨a, armed⟩ := exists_armed fires
      exact (timers .pingResp not_false).1 (by rw [armed]; rfl)
    · obtain ⟨a, armed⟩ := exists_armed fires
      exact ⟨((timers .keepAlive not_false).1 (by rw [armed]; rfl)).1, waits⟩
  | _ => exact absurd late id

theorem add_le_of_between {sent last now : Nat} {span : Duration} (le : sent ≤ last)
    (past : last ≤ now) (passed : span ≤ Duration.between last now) : sent + span.nanos ≤ now := by
  have elapsed : span.nanos ≤ min (now - last) Duration.maxNanos := passed
  omega

theorem Lasts.keepAlive_eq (h : Lasts past₀ e₀ config p past e) :
    e.keepAlive = agreedKeepAlive config p := by
  have kept : Kept (fun _ => True) fun _ d => d.keepAlive = agreedKeepAlive config p := {
    hears := fun _ _ _ here heard => heard.keepAlive_eq.trans here
    does := fun _ _ here did => did.keepAlive_eq.trans here
    links := fun _ here _ => here
    drift := fun here drifts => by cases drifts <;> exact here }
  exact (h.on_connection (fun accepted => accepted.keepAlive_eq) kept).1

/-- An engine that gives up on a ping waited since the ping went out, for the configured grace or
for the keep alive in use, and so for the whole grace in use, if the keep alive leaves it time. -/
theorem grace_le_of_givesUp (h : Timely past e log) (possible : Possible past e c)
    (onTime : e.OnTime c) (gives : e.GivesUp c) :
    ∃ sent, e.session.awaitPingResp = true ∧ lastPing log = some sent ∧
      (∃ past₀ e₀ log₀ config p, LastsTimely past₀ e₀ log₀ config p past e log) ∧
      ∀ past₀ e₀ log₀ config p, LastsTimely past₀ e₀ log₀ config p past e log →
        sent + min config.pingGrace.nanos (agreedKeepAlive config p).nanos ≤ e.now ∧
        (LeavesGrace config p → sent + (graceInUse config p).nanos ≤ e.now) := by
  have reached := h.reachable
  have late := timesOut_of_givesUp reached possible gives
  obtain ⟨connected, waits⟩ := waits_of_timesOut reached late
  obtain ⟨sent, last, le, deadline⟩ := h.graced.sent waits
  obtain ⟨past₀, e₀, log₀, config, p, kept⟩ := h.keptAlive connected
  refine ⟨sent, waits, last, ⟨past₀, e₀, log₀, config, p, kept.toLastsTimely⟩,
    fun past₀ e₀ log₀ config p lasts => ?_⟩
  have waited : sent + min config.pingGrace.nanos (agreedKeepAlive config p).nanos ≤ e.now := by
    rw [← lasts.keepAlive_eq]
    cases c with
    | timer timer id =>
      obtain ⟨fires, rfl | ⟨rfl, -, due⟩⟩ := late
      · obtain ⟨a, armed⟩ := exists_armed fires
        have graced : e.front.pingGrace = config.pingGrace := by
          simp [Front.pingGrace, front, lasts.config_eq]
        have tick := onTime a armed
        rw [Armed.tick_eq] at tick
        have elapsed : sent + config.pingGrace.nanos ≤ e.now := by
          rw [← graced, ← deadline a armed]
          exact Nat.le_trans (le_roundUp _) tick
        exact Nat.le_trans (Nat.add_le_add_left (Nat.min_le_left _ _) sent) elapsed
      · have elapsed : sent + e.keepAlive.nanos ≤ e.now :=
          add_le_of_between le h.le_now.1 due
        exact Nat.le_trans (Nat.add_le_add_left (Nat.min_le_right _ _) sent) elapsed
    | _ => exact absurd late id
  exact ⟨waited, fun leaves =>
    Nat.le_trans (Nat.add_le_add_left (graceInUse_le leaves) sent) waited⟩

end

/-- A ping that nobody answers: the keep alive of the client and the grace that it configures, in
seconds, the keep alive that the broker sets, and the timer for which the client gives up. -/
structure Lapse where
  seconds : Nat
  grace : Option Nat
  server : Option UInt16
  timer : Timer
  id : Nat
  now : Time

namespace Lapse

def config (l : Lapse) : Config :=
  { lively l.seconds with pingGraceOption := l.grace.map .ofSeconds }

def accepts (l : Lapse) : ConnAck :=
  { welcome with properties := (l.server.map (.twoBytes .serverKeepAlive)).toList }

def asking (l : Lapse) : List Command := [.connect 0 l.config, .opened 1 (.ok none)]

def asked (l : Lapse) : Engine := l.asking.foldl handle {}

def accepted (l : Lapse) : Engine := l.asked.handle (.incoming 1 (.connAck l.accepts))

def due (l : Lapse) : Engine := { l.accepted with now := 10000000000 }

def pinged (l : Lapse) : Engine := l.due.handle (.timer .keepAlive 2)

def late (l : Lapse) : Engine := { l.pinged with now := l.now }

def past (l : Lapse) : List Command :=
  l.asking ++ [.incoming 1 (.connAck l.accepts)] ++ [.timer .keepAlive 2]

def log (l : Lapse) : Log :=
  notedAll {} l.asking ++ noted l.asked l.accepted ++ noted l.due l.pinged

end Lapse

/-- The timer of the ping runs out; a longer grace is cut short by the keep alive; and the broker
sets a keep alive where the client has none, so that it has no grace either. -/
def lapses : List Lapse :=
  [⟨10, some 5, none, .pingResp, 3, 15000000000⟩, ⟨10, some 30, none, .keepAlive, 4, 20000000000⟩,
    ⟨0, none, some 10, .pingResp, 3, 10000000000⟩]

theorem lastsTimely_lapse {l : Lapse} (h : l ∈ lapses) :
    LastsTimely l.asking l.asked (notedAll {} l.asking) l.config l.accepts l.past l.late l.log ∧
      Possible l.past l.late (.timer l.timer l.id) ∧ l.late.OnTime (.timer l.timer l.id) ∧
      l.late.TimesOut (.timer l.timer l.id) := by
  -- Each fact is computed for all cases, and then taken for the one at hand.
  have run : ∀ l ∈ lapses, isRun [] {} l.asking = true ∧
      isPossible l.asking l.asked (.incoming 1 (.connAck l.accepts)) = true := by decide +kernel
  have asked : ∀ l ∈ lapses, l.asked.session.connection = .connecting ∧ l.asked.epoch = 1 := by
    decide +kernel
  have waits : ∀ l ∈ lapses, (∀ entry ∈ l.accepted.timers.toList, 10000000000 ≤ entry.2.tick) ∧
      ∀ entry ∈ l.pinged.timers.toList, l.now ≤ entry.2.tick := by decide +kernel
  have fires : ∀ l ∈ lapses, l.accepted.now ≤ 10000000000 ∧ l.pinged.now ≤ l.now ∧
      (l.due.timers.get? .keepAlive).all (·.tick ≤ l.due.now) = true ∧
      (l.late.timers.get? l.timer).all (·.tick ≤ l.late.now) = true := by decide +kernel
  have terms : ∀ l ∈ lapses, l.late.epoch = 1 ∧ l.late.config = some l.config ∧
      l.late.session.maxInflight = agreedInflight l.config l.accepts := by decide +kernel
  have overdue : ∀ l ∈ lapses, (l.late.timers.get? l.timer).any (·.id == l.id) = true ∧
      (l.timer = .pingResp ∨ l.timer = .keepAlive ∧ l.late.session.awaitPingResp = true ∧
        l.late.keepAlive ≤ Duration.between l.late.session.lastOutgoing l.late.now) := by
    decide +kernel
  obtain ⟨run, possible⟩ := run l h
  replace possible := possible_of_isPossible possible
  obtain ⟨connecting, epoch₀⟩ := asked l h
  obtain ⟨waits, waits'⟩ := waits l h
  obtain ⟨le, le', onTime, onTime'⟩ := fires l h
  obtain ⟨epoch, config, maxInflight⟩ := terms l h
  have timed : ∀ {e : Engine} {timer : Timer} (id : Nat),
      (e.timers.get? timer).all (·.tick ≤ e.now) = true → e.OnTime (.timer timer id) := by
    intro e timer id all a armed
    rw [armed, Option.all_some] at all
    exact of_decide_eq_true all
  have began : Timely l.asking l.asked (notedAll {} l.asking) :=
    Elapses.refl.append run (by simp)
  have pings : Possible (l.asking ++ [.incoming 1 (.connAck l.accepts)]) l.due
      (.timer .keepAlive 2) := ⟨nofun, nofun, nofun⟩
  refine ⟨?_, ⟨nofun, nofun, nofun⟩, timed l.id onTime', overdue l h⟩
  exact {
    reachable := began.reachable
    connecting
    success := rfl
    possible := epoch₀ ▸ possible
    leads := epoch₀ ▸ .drift (.handle (.drift .refl (.clock _)) pings) (.clock _)
    epoch_eq := epoch.trans epoch₀.symm
    config_eq := config
    maxInflight_eq := maxInflight
    began
    elapses := epoch₀ ▸
      .clock l.now (.handle (.clock _ .refl le waits) pings (timed 2 onTime)) le' waits' }

theorem grace_le_lapse :
    let l : Lapse := ⟨10, some 5, none, .pingResp, 3, 15000000000⟩
    l.late.TimesOut (.timer l.timer l.id) ∧ LeavesGrace l.config l.accepts ∧
      ∃ sent, l.late.session.awaitPingResp = true ∧ lastPing l.log = some sent ∧
        (∃ past₀ e₀ log₀ config p, LastsTimely past₀ e₀ log₀ config p l.past l.late l.log) ∧
        ∀ past₀ e₀ log₀ config p, LastsTimely past₀ e₀ log₀ config p l.past l.late l.log →
          sent + min config.pingGrace.nanos (agreedKeepAlive config p).nanos ≤ l.late.now ∧
          (LeavesGrace config p → sent + (graceInUse config p).nanos ≤ l.late.now) := by
  intro l
  obtain ⟨lasts, possible, onTime, late⟩ := lastsTimely_lapse (l := l) List.mem_cons_self
  have leaves : Duration.ofSeconds 5 ≤ agreedKeepAlive l.config l.accepts := by decide +kernel
  exact ⟨late, leaves, grace_le_of_givesUp lasts.timely possible onTime (.inl late)⟩

theorem early_lapse : ∀ l ∈ lapses.tail, lastPing l.log = some 10000000000 ∧
    ¬ 10000000000 + (graceInUse l.config l.accepts).nanos ≤ l.late.now := by
  decide +kernel

/-- In the last two lapses the engine gives up before the grace in use is over: although the client
configured it, and for want of one when the client did not. -/
theorem not_grace_le :
    (¬ ∀ past₀ e₀ log₀ config p past e log c sent, LastsTimely past₀ e₀ log₀ config p past e log →
      Possible past e c → e.OnTime c → e.GivesUp c → lastPing log = some sent →
      config.pingGraceOption.isSome → sent + (graceInUse config p).nanos ≤ e.now) ∧
    ¬ ∀ past₀ e₀ log₀ config p past e log c sent, LastsTimely past₀ e₀ log₀ config p past e log →
      Possible past e c → e.OnTime c → e.GivesUp c → lastPing log = some sent →
      config.pingGraceOption = none → sent + (graceInUse config p).nanos ≤ e.now := by
  constructor
  · intro always
    let l : Lapse := ⟨10, some 30, none, .keepAlive, 4, 20000000000⟩
    obtain ⟨lasts, possible, onTime, late⟩ := lastsTimely_lapse (l := l) (by simp [l, lapses])
    obtain ⟨sent, early⟩ := early_lapse l (by simp [l, lapses])
    exact early (always _ _ _ _ _ _ _ _ _ _ lasts possible onTime (.inl late) sent rfl)
  · intro always
    let l : Lapse := ⟨0, none, some 10, .pingResp, 3, 10000000000⟩
    obtain ⟨lasts, possible, onTime, late⟩ := lastsTimely_lapse (l := l) (by simp [l, lapses])
    obtain ⟨sent, early⟩ := early_lapse l (by simp [l, lapses])
    exact early (always _ _ _ _ _ _ _ _ _ _ lasts possible onTime (.inl late) sent rfl)

end Engine

end MqttClient
