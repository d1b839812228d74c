import MqttClient.Proofs.Engine.Lifetime

/-! The keep alive. Under a clock that does not pass a timer before it fires, a connected engine
writes something before the keep alive in use is over, counted from the last packet that it wrote or
from the acceptance of the session, whichever came later. The broker counts from the last packet in
any case, and it was told no more seconds than sixteen bits hold. -/

namespace MqttClient

/-- The first tick of the clock that is not before a point in time. -/
def roundUp (t : Time) : Time := (t + 999999) / 1000000 * 1000000

theorem Armed.tick_eq (a : Armed) : a.tick = roundUp a.deadline := rfl

theorem roundUp_mono {s t : Time} (h : s ≤ t) : roundUp s ≤ roundUp t :=
  Nat.mul_le_mul_right _ (Nat.div_le_div_right (Nat.add_le_add_right h _))

theorem le_roundUp (t : Nat) : t ≤ roundUp t := by
  unfold roundUp
  omega

theorem Timers.mem_toList_keepAlive {ts : Timers} {a : Armed} (h : ts.keepAlive = some a) :
    (Timer.keepAlive, a) ∈ ts.toList := by
  simp [toList, h]

namespace Engine

/-- What was done, with the time of each effect, the earliest first. -/
abbrev Log := List (Time × Effect)

def lastWrite (log : Log) : Time :=
  log.foldl (fun last entry => if entry.2.isWrite then entry.1 else last) 0

def written (now last : Time) (out : List Effect) : Time :=
  if out.any Effect.isWrite then now else last

/-- A timer that runs fires when it is due. -/
def OnTime (e : Engine) : Command → Prop
  | .timer timer _ => ∀ a, e.timers.get? timer = some a → a.tick ≤ e.now
  | _ => True

def noted (e d : Engine) : Log := (d.effects.drop e.effects.length).map (e.now, ·)

/-- A run goes on under a clock that stops at every timer. -/
inductive Elapses (past₀ : List Command) (e₀ : Engine) (log₀ : Log) :
    List Command → Engine → Log → Prop
  | refl : Elapses past₀ e₀ log₀ past₀ e₀ log₀
  | handle {past e log c} : Elapses past₀ e₀ log₀ past e log → Possible past e c → e.OnTime c →
    Elapses past₀ e₀ log₀ (past ++ [c]) (e.handle c) (log ++ noted e (e.handle c))
  | clock {past e log} (now : Time) : Elapses past₀ e₀ log₀ past e log → e.now ≤ now →
    (∀ entry ∈ e.timers.toList, now ≤ entry.2.tick) →
    Elapses past₀ e₀ log₀ past { e with now } log
  | drift {past e d log} : Elapses past₀ e₀ log₀ past e log → Drifts e d → d.now = e.now →
    Elapses past₀ e₀ log₀ past d log

abbrev Timely : List Command → Engine → Log → Prop := Elapses [] {} []

/-- The keep alive that the broker counts on: its own, or else what the request to open the session
says. -/
def promisedKeepAlive (config : Config) (p : ConnAck) : Duration :=
  match Properties.serverKeepAlive? p.properties with
  | some seconds => .ofSeconds seconds.toNat
  | none => .ofSeconds config.connectPacket.keepAlive.toNat

/-- The broker knows the keep alive in use: it set it, or sixteen bits hold its seconds. -/
def Announced (config : Config) (p : ConnAck) : Prop :=
  (Properties.serverKeepAlive? p.properties).isSome ∨
    ∃ seconds ≤ 65535, config.keepAlive = .ofSeconds seconds

theorem agreedKeepAlive_eq {config : Config} {p : ConnAck} (h : Announced config p) :
    agreedKeepAlive config p = promisedKeepAlive config p := by
  unfold agreedKeepAlive promisedKeepAlive
  obtain set | ⟨seconds, le, he⟩ := h
  · obtain ⟨seconds, he⟩ := Option.isSome_iff_exists.1 set
    rw [he]
  · cases Properties.serverKeepAlive? p.properties with
    | some => rfl
    | none =>
      have whole : (Duration.ofSeconds seconds).seconds = seconds := by
        simp only [Duration.ofSeconds, Duration.ofNanos, Duration.seconds, Duration.maxNanos,
          UInt64.size]
        omega
      have told : config.connectPacket.keepAlive.toNat = seconds := by
        simp only [Config.connectPacket, he, whole, Nat.toUInt16_eq, UInt16.toNat_ofNat']
        omega
      rw [told, he]

section

variable {past past₀ : List Command} {e e₀ d m : Engine} {c : Command} {log : Log}
  {out : List Effect}
  {t₀ last : Time} {config : Config} {p : ConnAck}

theorem lastWrite_append (log : Log) (now : Time) (out : List Effect) :
    lastWrite (log ++ out.map (now, ·)) = written now (lastWrite log) out := by
  induction out generalizing log with
  | nil => rw [List.map_nil, List.append_nil]; rfl
  | cons x rest ih =>
    have split : log ++ (x :: rest).map (now, ·) = log ++ [(now, x)] ++ rest.map (now, ·) := by simp
    rw [split, ih]
    cases hx : x.isWrite <;> simp [written, lastWrite, hx]

theorem written_append (now last : Time) (out out' : List Effect) :
    written now (written now last out) out' = written now last (out ++ out') := by
  unfold written
  rw [List.any_append]
  cases out.any Effect.isWrite <;> cases out'.any Effect.isWrite <;> rfl

theorem written_le {now last : Time} (h : last ≤ now) (out : List Effect) :
    written now last out ≤ now := by
  unfold written
  split
  · exact Nat.le_refl _
  · exact h

theorem le_written {now last : Time} (h : last ≤ now) (out : List Effect) :
    last ≤ written now last out := by
  unfold written
  split
  · exact h
  · exact Nat.le_refl _

theorem Elapses.reachable (h : Timely past e log) : Reachable past e := by
  induction h with
  | refl => exact .start
  | handle _ possible _ ih => exact .handle ih possible
  | clock now _ _ _ ih => exact .clock now ih
  | drift _ drifts _ ih => exact ih.drift drifts

theorem Elapses.trans {past₁ past₂ : List Command} {e₁ e₂ : Engine} {log₁ log₂ : Log}
    (h : Elapses past₁ e₁ log₁ past₂ e₂ log₂) (h' : Elapses past₂ e₂ log₂ past e log) :
    Elapses past₁ e₁ log₁ past e log := by
  induction h' with
  | refl => exact h
  | handle _ possible onTime ih => exact ih.handle possible onTime
  | clock now _ le waits ih => exact ih.clock now le waits
  | drift _ drifts now ih => exact ih.drift drifts now

theorem Step.lastOutgoing_le (h : Step c e d) (le : e.session.lastOutgoing ≤ e.now) :
    d.session.lastOutgoing ≤ d.now ∧ d.now = e.now := by
  have kept : d.session.lastOutgoing = e.session.lastOutgoing ∨ d.session.lastOutgoing = e.now →
      d.now = e.now → d.session.lastOutgoing ≤ d.now ∧ d.now = e.now := by
    rintro written now
    refine ⟨?_, now⟩
    rw [now]
    exact written.elim (fun old => old ▸ le) Nat.le_of_eq
  cases h with
  | does does => exact kept does.lastOutgoing does.now_eq
  | links => exact ⟨le, rfl⟩
  | parts parts => exact kept parts.lastOutgoing parts.now_eq

theorem lastOutgoing_le_of_steps (h : Steps c e d) (le : e.session.lastOutgoing ≤ e.now) :
    d.session.lastOutgoing ≤ d.now ∧ d.now = e.now := by
  induction h with
  | refl => exact ⟨le, rfl⟩
  | tail _ step ih =>
    obtain ⟨le', now⟩ := step.lastOutgoing_le ih.1
    exact ⟨le', now.trans ih.2⟩

theorem Progress.lastOutgoing_le (h : Progress c e d) (le : e.session.lastOutgoing ≤ e.now) :
    d.session.lastOutgoing ≤ d.now ∧ d.now = e.now := by
  obtain ⟨m, heard, steps⟩ | parts | ⟨config, p, m, accepted, steps⟩ := h
  · obtain ⟨le', now⟩ := lastOutgoing_le_of_steps steps
      (by rw [heard.lastOutgoing_eq, heard.now_eq]; exact le)
    exact ⟨le', now.trans heard.now_eq⟩
  · exact (Step.parts (c := c) parts).lastOutgoing_le le
  · obtain ⟨le', now⟩ := lastOutgoing_le_of_steps steps
      (by rw [accepted.lastOutgoing_eq, accepted.now_eq]; exact le)
    exact ⟨le', now.trans accepted.now_eq⟩

theorem Elapses.le_now (h : Timely past e log) :
    e.session.lastOutgoing ≤ e.now ∧ lastWrite log ≤ e.now := by
  induction h with
  | refl => exact ⟨Nat.le_refl _, Nat.le_refl _⟩
  | @handle past e log c run possible onTime ih =>
    obtain ⟨le, now⟩ := (run.reachable.progress possible).lastOutgoing_le ih.1
    refine ⟨le, ?_⟩
    rw [noted, lastWrite_append, now]
    exact written_le ih.2 _
  | clock now run le _ ih => exact ⟨Nat.le_trans ih.1 le, Nat.le_trans ih.2 le⟩
  | drift run drifts now ih =>
    rw [now]
    cases drifts <;> exact ih

/-- The timer is armed for no later than the keep alive after the last packet, or after the
acceptance of the session at `t₀`. -/
structure InTime (t₀ last : Time) (e : Engine) : Prop where
  lastOutgoing_le : e.session.lastOutgoing ≤ max last t₀
  deadline_le : ∀ a, e.timers.keepAlive = some a →
    a.deadline ≤ max last t₀ + e.keepAlive.nanos

theorem InTime.does (h : InTime t₀ last m) (le : last ≤ m.now) (did : Does c m out d) :
    InTime t₀ (written m.now last out) d := by
  have later : max last t₀ ≤ max (written m.now last out) t₀ :=
    Nat.max_le.2 ⟨Nat.le_trans (le_written le out) (Nat.le_max_left _ _), Nat.le_max_right _ _⟩
  have sent : d.session.lastOutgoing ≤ max (written m.now last out) t₀ := by
    rw [did.lastOutgoing_eq]
    unfold written
    split
    · exact Nat.le_max_left _ _
    · exact h.lastOutgoing_le
  refine ⟨sent, fun a ha => ?_⟩
  rw [did.keepAlive_eq]
  obtain same | ⟨b, hb, le'⟩ := did.timer
  · have old := h.deadline_le a (same.symm.trans ha)
    exact Nat.le_trans old (Nat.add_le_add_right later _)
  · cases hb.symm.trans ha
    exact Nat.le_trans le' (Nat.add_le_add_right sent _)

theorem InTime.steps (h : InTime t₀ last m) (le : last ≤ m.now) (steps : Steps c m d)
    (same : d.epoch = m.epoch) : d.now = m.now ∧ d.keepAlive = m.keepAlive ∧
      ∃ out, d.effects = m.effects ++ out ∧ InTime t₀ (written m.now last out) d := by
  let held : Engine → Prop := fun d => d.now = m.now ∧ d.keepAlive = m.keepAlive ∧
    ∃ out, d.effects = m.effects ++ out ∧ InTime t₀ (written m.now last out) d
  have start : held m := ⟨rfl, rfl, [], (List.append_nil _).symm, h⟩
  have kept : held d := by
    refine steps_induction steps same start ?_ ?_
    · rintro m' d' out' ⟨now, keepAlive, out, he, here⟩ did
      refine ⟨did.now_eq.trans now, did.keepAlive_eq.trans keepAlive, out ++ out', ?_, ?_⟩
      · rw [did.effects_eq, he, List.append_assoc]
      · have next := here.does (now ▸ written_le le out) did
        rwa [now, written_append] at next
    · rintro m' config room ⟨now, keepAlive, out, he, here⟩ -
      exact ⟨now, keepAlive, out, he, here.lastOutgoing_le, here.deadline_le⟩
  exact kept

structure LastsTimely (past₀ : List Command) (e₀ : Engine) (log₀ : Log) (config : Config)
    (p : ConnAck) (past : List Command) (e : Engine) (log : Log) : Prop
    extends Lasts past₀ e₀ config p past e where
  began : Timely past₀ e₀ log₀
  elapses : Elapses (past₀ ++ [.incoming e₀.epoch (.connAck p)])
    (e₀.handle (.incoming e₀.epoch (.connAck p)))
    (log₀ ++ noted e₀ (e₀.handle (.incoming e₀.epoch (.connAck p)))) past e log

theorem LastsTimely.timely (h : LastsTimely past₀ e₀ log₀ config p past e log) :
    Timely past e log :=
  (h.began.handle h.possible trivial).trans h.elapses

theorem LastsTimely.clock (h : LastsTimely past₀ e₀ log₀ config p past e log)
    (connected : e.session.connection = .connected) {now : Time} (le : e.now ≤ now)
    (waits : ∀ entry ∈ e.timers.toList, now ≤ entry.2.tick) :
    LastsTimely past₀ e₀ log₀ config p past { e with now } log :=
  ⟨h.toLasts.drift (.clock now) connected, h.began, h.elapses.clock now le waits⟩

structure KeptAlive (past₀ : List Command) (e₀ : Engine) (log₀ : Log) (config : Config)
    (p : ConnAck) (past : List Command) (e : Engine) (log : Log) : Prop
    extends LastsTimely past₀ e₀ log₀ config p past e log where
  keepAlive_eq : e.keepAlive = agreedKeepAlive config p
  inTime : InTime e₀.now (lastWrite log) e
  now_le : e.keepAlive.isZero = false →
    e.now ≤ roundUp (max (lastWrite log) e₀.now + e.keepAlive.nanos)

theorem bound_mono {last last' : Time} (t₀ : Time) (keepAlive : Duration) (h : last ≤ last') :
    roundUp (max last t₀ + keepAlive.nanos) ≤ roundUp (max last' t₀ + keepAlive.nanos) := by
  have later : max last t₀ ≤ max last' t₀ :=
    Nat.max_le.2 ⟨Nat.le_trans h (Nat.le_max_left _ _), Nat.le_max_right _ _⟩
  exact roundUp_mono (Nat.add_le_add_right later _)

theorem KeptAlive.hears (h : KeptAlive past₀ e₀ log₀ config p past e log)
    (le : lastWrite log ≤ e.now) (possible : Possible past e c) (onTime : e.OnTime c)
    (keeps : Keeps e (e.handle c)) (connected : (e.handle c).session.connection = .connected)
    (heard : Hears c e m) (steps : Steps c m (e.handle c)) :
    KeptAlive past₀ e₀ log₀ config p (past ++ [c]) (e.handle c)
      (log ++ noted e (e.handle c)) := by
  have arrived : InTime e₀.now (lastWrite log) m := by
    refine ⟨heard.lastOutgoing_eq ▸ h.inTime.lastOutgoing_le, ?_⟩
    rw [heard.timers_eq, heard.keepAlive_eq]
    exact h.inTime.deadline_le
  have epoch := (keeps.epoch_eq connected).trans heard.epoch_eq.symm
  obtain ⟨now, keepAlive, out, he, left⟩ := arrived.steps (heard.now_eq ▸ le) steps epoch
  rw [heard.now_eq] at now left
  rw [heard.keepAlive_eq] at keepAlive
  have last : lastWrite (log ++ noted e (e.handle c)) = written e.now (lastWrite log) out := by
    rw [noted, he, heard.effects_eq, List.drop_left, lastWrite_append]
  refine ⟨⟨h.toLasts.handle possible keeps connected, h.began, h.elapses.handle possible onTime⟩,
    keepAlive.trans h.keepAlive_eq, last ▸ left, fun counts => ?_⟩
  rw [keepAlive] at counts
  rw [now, keepAlive, last]
  exact Nat.le_trans (h.now_le counts) (bound_mono _ _ (le_written le out))

theorem keptAlive_of_accepts (began : Timely past e log) (lasts : Lasts past e config p
      (past ++ [.incoming e.epoch (.connAck p)]) (e.handle (.incoming e.epoch (.connAck p))))
    (accepted : Accepts config p (.incoming e.epoch (.connAck p)) e m)
    (steps : Steps (.incoming e.epoch (.connAck p)) m
      (e.handle (.incoming e.epoch (.connAck p)))) :
    KeptAlive past e log config p (past ++ [.incoming e.epoch (.connAck p)])
      (e.handle (.incoming e.epoch (.connAck p)))
      (log ++ noted e (e.handle (.incoming e.epoch (.connAck p)))) := by
  let d := e.handle (.incoming e.epoch (.connAck p))
  have le := began.le_now
  have arrived : InTime e.now (lastWrite log) m := by
    refine ⟨?_, fun a ha => ?_⟩
    · rw [accepted.lastOutgoing_eq]
      exact Nat.le_trans le.1 (Nat.le_max_right _ _)
    · rw [accepted.timer a ha, accepted.keepAlive_eq]
      exact Nat.add_le_add_right (Nat.le_max_right _ _) _
  have epoch := lasts.epoch_eq.trans accepted.epoch_eq.symm
  obtain ⟨now, keepAlive, out, he, left⟩ := arrived.steps (accepted.now_eq ▸ le.2) steps epoch
  rw [accepted.now_eq] at now left
  have last : lastWrite (log ++ noted e d) = written e.now (lastWrite log) out := by
    rw [noted, he, accepted.effects_eq, List.drop_left, lastWrite_append]
  refine ⟨⟨lasts, began, .refl⟩, keepAlive.trans accepted.keepAlive_eq, last ▸ left, fun _ => ?_⟩
  rw [now]
  exact Nat.le_trans (Nat.le_trans (Nat.le_max_right _ e.now) (Nat.le_add_right _ _))
    (le_roundUp _)

theorem KeptAlive.clock (h : KeptAlive past₀ e₀ log₀ config p past e log)
    (run : Reachable past e) (connected : e.session.connection = .connected) {now : Time}
    (le : e.now ≤ now) (waits : ∀ entry ∈ e.timers.toList, now ≤ entry.2.tick) :
    KeptAlive past₀ e₀ log₀ config p past { e with now } log := by
  refine ⟨h.toLastsTimely.clock connected le waits, h.keepAlive_eq, ⟨h.inTime.1, h.inTime.2⟩,
    fun counts => ?_⟩
  have armed := (run.accounted.settled.timers .keepAlive id).2 ⟨connected, counts⟩
  obtain ⟨a, ha⟩ := Option.isSome_iff_exists.1 armed
  have stops := waits (.keepAlive, a) (Timers.mem_toList_keepAlive ha)
  rw [Armed.tick_eq] at stops
  exact Nat.le_trans stops (roundUp_mono (h.inTime.deadline_le a ha))

theorem KeptAlive.drift (h : KeptAlive past₀ e₀ log₀ config p past e log) (drifts : Drifts e d)
    (now : d.now = e.now) (connected : d.session.connection = .connected) :
    KeptAlive past₀ e₀ log₀ config p past d log := by
  have keepAlive : d.keepAlive = e.keepAlive := by cases drifts <;> rfl
  have still : InTime e₀.now (lastWrite log) d := by
    have here := h.inTime
    cases drifts <;> exact ⟨here.1, here.2⟩
  refine ⟨⟨h.toLasts.drift drifts connected, h.began, h.elapses.drift drifts now⟩,
    keepAlive.trans h.keepAlive_eq, still, ?_⟩
  rw [now, keepAlive]
  exact h.now_le

theorem Elapses.keptAlive (h : Timely past e log)
    (connected : e.session.connection = .connected) :
    ∃ past₀ e₀ log₀ config p, KeptAlive past₀ e₀ log₀ config p past e log := by
  induction h with
  | refl => cases connected
  | @handle past e log c run possible onTime ih =>
    have reached := run.reachable
    have settled := reached.accounted.settled
    obtain ⟨keeps, -⟩ | ⟨config, p, m, rfl, success, opens, keeps, -⟩ :=
      (settled.course c).connected_cases connected
    · have here := keeps.connection_eq (.inl connected) ▸ connected
      obtain ⟨m, heard, steps⟩ | parts | ⟨_, _, _, accepted, -⟩ := reached.progress possible
      · obtain ⟨past₀, e₀, log₀, config, p, kept⟩ := ih here
        exact ⟨past₀, e₀, log₀, config, p,
          kept.hears run.le_now.2 possible onTime keeps connected heard steps⟩
      · exact absurd connected parts.connection_ne
      · cases here.symm.trans accepted.connecting
    · obtain ⟨config', m', accepted, steps⟩ := settled.accept opens.connecting success
      cases opens.configured.symm.trans accepted.configured
      have lasts := opens.lasts reached possible success keeps connected
      exact ⟨past, e, log, config, p, keptAlive_of_accepts run lasts accepted steps⟩
  | clock now run le waits ih =>
    obtain ⟨past₀, e₀, log₀, config, p, kept⟩ := ih connected
    exact ⟨past₀, e₀, log₀, config, p, kept.clock run.reachable connected le waits⟩
  | drift run drifts now ih =>
    obtain ⟨past₀, e₀, log₀, config, p, kept⟩ := ih (drifts.connection_eq.symm.trans connected)
    exact ⟨past₀, e₀, log₀, config, p, kept.drift drifts now connected⟩

def notedAll (e : Engine) : List Command → Log
  | [] => []
  | c :: rest => noted e (e.handle c) ++ notedAll (e.handle c) rest

theorem Elapses.append {cs : List Command} (h : Elapses past₀ e₀ log₀ past e log)
    (run : isRun past e cs = true) (untimed : ∀ timer id, .timer timer id ∉ cs) :
    Elapses past₀ e₀ log₀ (past ++ cs) (cs.foldl Engine.handle e) (log ++ notedAll e cs) := by
  induction cs generalizing past e log with
  | nil => rwa [List.append_nil, notedAll, List.append_nil]
  | cons c rest ih =>
    rw [isRun, Bool.and_eq_true] at run
    have onTime : e.OnTime c := by
      cases c with
      | timer timer id => exact absurd List.mem_cons_self (untimed timer id)
      | _ => trivial
    have next := ih (h.handle (possible_of_isPossible run.1) onTime) run.2
      fun timer id hm => untimed timer id (List.mem_cons_of_mem c hm)
    rwa [List.append_assoc, List.append_assoc] at next

end

/-- As long as a connection lasts, its engine writes something before the keep alive in use is over,
counted from the last packet that it wrote or from the acceptance of the session, whichever came
later. That is the keep alive that the broker counts on if it was announced. -/
theorem now_le_of_timely {past : List Command} {e : Engine} {log : Log} (h : Timely past e log)
    (connected : e.session.connection = .connected) :
    ∃ past₀ e₀ log₀ config p, LastsTimely past₀ e₀ log₀ config p past e log ∧
      ((agreedKeepAlive config p).isZero = false →
        e.now ≤ roundUp (max (lastWrite log) e₀.now + (agreedKeepAlive config p).nanos)) ∧
      (Announced config p → agreedKeepAlive config p = promisedKeepAlive config p) := by
  obtain ⟨past₀, e₀, log₀, config, p, kept⟩ := h.keptAlive connected
  exact ⟨past₀, e₀, log₀, config, p, kept.toLastsTimely, kept.keepAlive_eq ▸ kept.now_le,
    agreedKeepAlive_eq⟩

def lively (seconds : Nat) : Config :=
  { clientId := "", host := "h", port := 1883, keepAlive := .ofSeconds seconds
    one_le_inflight := Config.one_le_hundred }

def hail (seconds : Nat) : List Command := [.connect 0 (lively seconds), .opened 1 (.ok none)]

def welcome : ConnAck := { sessionPresent := false, code := .success }

def answer : Command := .incoming 1 (.connAck welcome)

def hailed (seconds : Nat) (answered : Time) : Engine :=
  { (hail seconds).foldl handle {} with now := answered }

def silent (seconds : Nat) (answered now : Time) : Engine :=
  { (hailed seconds answered).handle answer with now }

def silentLog (seconds : Nat) (answered : Time) : Log :=
  notedAll {} (hail seconds) ++
    noted (hailed seconds answered) ((hailed seconds answered).handle answer)

/-- The seconds of a keep alive, the time of the acceptance and the present: the acceptance takes
some time, or the keep alive is longer than the broker can be told. -/
def silences : List (Nat × Time × Time) :=
  [(10, 3000000000, 12000000000), (70000, 0, 65536000000000)]

theorem lastsTimely_silent {seconds : Nat} {answered now : Time}
    (h : (seconds, answered, now) ∈ silences) :
    LastsTimely (hail seconds) (hailed seconds answered) (notedAll {} (hail seconds))
      (lively seconds) welcome (hail seconds ++ [answer]) (silent seconds answered now)
      (silentLog seconds answered) := by
  -- Each fact is computed for both cases, and then taken for the one at hand.
  have run : ∀ s ∈ silences, isRun [] {} (hail s.1) = true := by decide +kernel
  have waits : ∀ s ∈ silences, ∀ entry ∈ ((hail s.1).foldl handle {}).timers.toList,
    s.2.1 ≤ entry.2.tick := by decide +kernel
  have possible : ∀ s ∈ silences, isPossible (hail s.1) (hailed s.1 s.2.1) answer = true := by
    decide +kernel
  have connecting : ∀ s ∈ silences,
    (hailed s.1 s.2.1).session.connection = .connecting ∧ (hailed s.1 s.2.1).epoch = 1 := by
    decide +kernel
  have terms : ∀ s ∈ silences, ((hailed s.1 s.2.1).handle answer).epoch = 1 ∧
      ((hailed s.1 s.2.1).handle answer).config = some (lively s.1) ∧
      ((hailed s.1 s.2.1).handle answer).session.maxInflight
        = agreedInflight (lively s.1) welcome := by decide +kernel
  have connected : ∀ s ∈ silences,
    ((hailed s.1 s.2.1).handle answer).session.connection = .connected ∧
      ((hailed s.1 s.2.1).handle answer).now ≤ s.2.2 := by decide +kernel
  have waits' : ∀ s ∈ silences, ∀ entry ∈ ((hailed s.1 s.2.1).handle answer).timers.toList,
    s.2.2 ≤ entry.2.tick := by decide +kernel
  replace run := run _ h
  replace waits := waits _ h
  replace possible := possible_of_isPossible (possible _ h)
  obtain ⟨connecting, epoch₀⟩ := connecting _ h
  obtain ⟨epoch, config, maxInflight⟩ := terms _ h
  obtain ⟨connected, le⟩ := connected _ h
  replace waits' := waits' _ h
  have asked : Timely (hail seconds) (hailed seconds answered) (notedAll {} (hail seconds)) :=
    (Elapses.refl.append run (by simp [hail])).clock _ (Nat.zero_le _) waits
  have accepted : LastsTimely (hail seconds) (hailed seconds answered) (notedAll {} (hail seconds))
      (lively seconds) welcome (hail seconds ++ [answer]) ((hailed seconds answered).handle answer)
      (silentLog seconds answered) := {
    reachable := asked.reachable
    connecting
    success := rfl
    possible := epoch₀ ▸ possible
    leads := epoch₀ ▸ .refl
    epoch_eq := epoch.trans epoch₀.symm
    config_eq := config
    maxInflight_eq := maxInflight
    began := asked
    elapses := epoch₀ ▸ .refl }
  exact accepted.clock connected le waits'

theorem now_le_silent :
    (silent 10 3000000000 12000000000).session.connection = .connected ∧
    ∃ past₀ e₀ log₀ config p, LastsTimely past₀ e₀ log₀ config p (hail 10 ++ [answer])
        (silent 10 3000000000 12000000000) (silentLog 10 3000000000) ∧
      ((agreedKeepAlive config p).isZero = false →
        (silent 10 3000000000 12000000000).now ≤ roundUp
          (max (lastWrite (silentLog 10 3000000000)) e₀.now + (agreedKeepAlive config p).nanos)) ∧
      (Announced config p → agreedKeepAlive config p = promisedKeepAlive config p) := by
  have connected : (silent 10 3000000000 12000000000).session.connection = .connected := by
    decide +kernel
  have lasts := lastsTimely_silent (by simp [silences] : (10, 3000000000, 12000000000) ∈ silences)
  exact ⟨connected, now_le_of_timely lasts.timely connected⟩

/-- The broker may hear nothing for longer than it was promised: after an acceptance that takes its
time, although the keep alive was announced; and after one that takes no time, if the keep alive was
not. -/
theorem not_now_le :
    (¬ ∀ past₀ e₀ log₀ config p past e log, LastsTimely past₀ e₀ log₀ config p past e log →
      Announced config p → (promisedKeepAlive config p).isZero = false →
      e.now ≤ lastWrite log + (promisedKeepAlive config p).nanos) ∧
    ¬ ∀ past₀ e₀ log₀ config p past e log, LastsTimely past₀ e₀ log₀ config p past e log →
      e₀.now ≤ lastWrite log → (promisedKeepAlive config p).isZero = false →
      e.now ≤ lastWrite log + (promisedKeepAlive config p).nanos := by
  constructor
  · intro always
    have lasts := lastsTimely_silent (by simp [silences] : (10, 3000000000, 12000000000) ∈ silences)
    have announced : Announced (lively 10) welcome := .inr ⟨10, by decide, rfl⟩
    have le := always _ _ _ _ _ _ _ _ lasts announced (by decide +kernel)
    have late : ¬ (silent 10 3000000000 12000000000).now ≤ lastWrite (silentLog 10 3000000000)
      + (promisedKeepAlive (lively 10) welcome).nanos := by decide +kernel
    exact late le
  · intro always
    have lasts := lastsTimely_silent (by simp [silences] : (70000, 0, 65536000000000) ∈ silences)
    have le := always _ _ _ _ _ _ _ _ lasts (by decide +kernel) (by decide +kernel)
    have long : ¬ (silent 70000 0 65536000000000).now ≤ lastWrite (silentLog 70000 0)
      + (promisedKeepAlive (lively 70000) welcome).nanos := by decide +kernel
    exact long le

end Engine

end MqttClient
