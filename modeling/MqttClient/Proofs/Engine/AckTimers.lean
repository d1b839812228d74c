import MqttClient.Proofs.Engine.Arming
import MqttClient.Proofs.Engine.KeepAlive

/-! When the timer of an acknowledgement fires. It runs for the whole acknowledgement timeout from a
packet of its transaction, and the only packets of that transaction that may have been written since
are releases that answered the acknowledged receipt of an exactly-once message. Without those, no
acknowledgement is late before the timeout has passed since the last packet; with one, it may be. -/

namespace MqttClient.Engine

/-- When packets of a transaction were written, the earliest first. -/
def sendings (k : UInt16) (log : Log) : List Time := (log.filter (·.2.isOf k)).map (·.1)

/-- The run came by an engine that answered the acknowledged receipt of an exactly-once message with
its release, which went out at the time `t`. -/
def ReleasedAt (k : UInt16) (past : List Command) (e : Engine) (log : Log) (t : Time) : Prop :=
  ∃ past₁ e₁ log₁ c, Timely past₁ e₁ log₁ ∧ Possible past₁ e₁ c ∧ e₁.Releases k c ∧
    t ∈ sendings k (noted e₁ (e₁.handle c)) ∧
    Elapses (past₁ ++ [c]) (e₁.handle c) (log₁ ++ noted e₁ (e₁.handle c)) past e log

/-- A timer that runs for the transaction was armed when a packet of it was written, and what was
written since are releases. -/
def Counts (k : UInt16) (past : List Command) (e : Engine) (log : Log) : Prop :=
  ∀ a, e.timers.get? (.ack k) = some a → ∃ older sent releases,
    sendings k log = older ++ sent :: releases ∧ a.deadline = sent + e.ackTimeout.nanos ∧
      ∀ t ∈ releases, ReleasedAt k past e log t

section

variable {k : UInt16} {past past' : List Command} {e d : Engine} {c : Command} {log log' : Log}

theorem sendings_append (k : UInt16) (log : Log) (now : Time) (out : List Effect) :
    sendings k (log ++ out.map (now, ·))
      = sendings k log ++ (out.filter (Effect.isOf k)).map fun _ => now := by
  simp [sendings, List.filter_map, Function.comp_def]

theorem sendings_noted {out : List Effect} (effects : d.effects = e.effects ++ out) :
    sendings k (log ++ noted e d)
      = sendings k log ++ (out.filter (Effect.isOf k)).map fun _ => e.now := by
  rw [noted, effects, List.drop_left, sendings_append]

theorem ReleasedAt.elapses {t : Time} (h : ReleasedAt k past e log t)
    (goes : Elapses past e log past' d log') : ReleasedAt k past' d log' t := by
  obtain ⟨past₁, e₁, log₁, c, began, possible, releases, sent, run⟩ := h
  exact ⟨past₁, e₁, log₁, c, began, possible, releases, sent, run.trans goes⟩

theorem Counts.elapses (h : Counts k past e log) (goes : Elapses past e log past d log)
    (timers : d.timers = e.timers) (ackTimeout : d.ackTimeout = e.ackTimeout) :
    Counts k past d log := by
  intro a ha
  rw [timers] at ha
  obtain ⟨older, sent, releases, split, deadline, answered⟩ := h a ha
  exact ⟨older, sent, releases, split, ackTimeout ▸ deadline,
    fun t ht => (answered t ht).elapses goes⟩

theorem Counts.handle (h : Counts k past e log) (run : Timely past e log)
    (possible : Possible past e c) (onTime : e.OnTime c) :
    Counts k (past ++ [c]) (e.handle c) (log ++ noted e (e.handle c)) := by
  have goes : Elapses past e log (past ++ [c]) (e.handle c) (log ++ noted e (e.handle c)) :=
    Elapses.refl.handle possible onTime
  intro a ha
  cases run.reachable.accounted.settled.paces k c with
  | disarms unarmed => cases unarmed.symm.trans ha
  | arms arms =>
    have same : (e.handle c).ackTimeout = e.ackTimeout := arms.ackTimeout_eq
    obtain ⟨out, effects, timer⟩ := arms.timer
    rw [sendings_noted effects, same]
    obtain ⟨kept, none⟩ | ⟨deadline, some⟩ := timer a ha
    · have nothing : out.filter (Effect.isOf k) = [] := by
        simpa [List.filter_eq_nil_iff, List.any_eq_false] using none
      obtain ⟨older, sent, releases, split, deadline, answered⟩ := h a kept
      exact ⟨older, sent, releases, by rw [nothing, split]; simp, deadline,
        fun t ht => (answered t ht).elapses goes⟩
    · -- However many packets went out, they did so now.
      obtain ⟨x, hx, isOf⟩ := List.any_eq_true.1 some
      obtain nil | ⟨init, last, written⟩ := List.eq_nil_or_concat (out.filter (Effect.isOf k))
      · have found : x ∈ out.filter (Effect.isOf k) := List.mem_filter.2 ⟨hx, isOf⟩
        rw [nil] at found
        cases found
      · refine ⟨sendings k log ++ init.map fun _ => e.now, e.now, [], ?_, deadline, by simp⟩
        rw [written]
        simp
  | @releases answers x part left =>
    have effects : (e.handle c).effects = e.effects ++ [x] := congrArg Agenda.effects left
    have timers : (e.handle c).timers = e.timers := congrArg Agenda.timers left
    have same : (e.handle c).ackTimeout = e.ackTimeout := congrArg Agenda.ackTimeout left
    have written : ∀ log, sendings k (log ++ noted e (e.handle c)) = sendings k log ++ [e.now] := by
      intro log
      rw [sendings_noted effects]
      simp [part]
    rw [timers] at ha
    obtain ⟨older, sent, releases, split, deadline, answered⟩ := h a ha
    refine ⟨older, sent, releases ++ [e.now], ?_, same ▸ deadline, fun t ht => ?_⟩
    · rw [written, split]
      simp
    · obtain before | now := List.mem_append.1 ht
      · exact (answered t before).elapses goes
      · have sent : t ∈ sendings k (noted e (e.handle c)) := written [] ▸ now
        exact ⟨past, e, log, c, run, possible, answers, sent, .refl⟩

theorem Elapses.counts (h : Timely past e log) : Counts k past e log := by
  induction h with
  | refl => intro a ha; cases (get?_empty (.ack k)).symm.trans ha
  | handle run possible onTime ih => exact ih.handle run possible onTime
  | clock now run le waits ih => exact ih.elapses (.clock now .refl le waits) rfl rfl
  | drift run drifts now ih =>
    exact ih.elapses (.drift .refl drifts now) (by cases drifts <;> rfl) (by cases drifts <;> rfl)

end

/-- A timer of an acknowledgement that fires was armed when a packet of its transaction was written,
and the whole timeout has passed since. Later packets of the transaction are releases that answered
the acknowledged receipt of an exactly-once message; if the last packet is none of those, the whole
timeout has passed since the last packet. -/
theorem ackTimeout_le_of_fires {past : List Command} {e : Engine} {log : Log} {k : UInt16}
    {id : Nat} (h : Timely past e log) (onTime : e.OnTime (.timer (.ack k) id))
    (fires : (e.timers.get? (.ack k)).any (·.id == id) = true) :
    ∃ older sent releases, sendings k log = older ++ sent :: releases ∧
      sent + e.ackTimeout.nanos ≤ e.now ∧ (∀ t ∈ releases, ReleasedAt k past e log t) ∧
      ∀ last, (sendings k log).getLast? = some last → ¬ ReleasedAt k past e log last →
        last + e.ackTimeout.nanos ≤ e.now := by
  cases armed : e.timers.get? (.ack k) with
  | none => simp [armed] at fires
  | some a =>
    obtain ⟨older, sent, releases, split, deadline, answered⟩ := h.counts a armed
    have passed : sent + e.ackTimeout.nanos ≤ e.now := by
      have tick := onTime a armed
      rw [Armed.tick_eq, deadline] at tick
      exact Nat.le_trans (le_roundUp _) tick
    refine ⟨older, sent, releases, split, passed, answered, fun last hl other => ?_⟩
    rw [split, List.getLast?_append, List.getLast?_cons, Option.some_or, Option.some.injEq] at hl
    cases none : releases.getLast? with
    | none =>
      rw [none] at hl
      exact hl ▸ passed
    | some t =>
      rw [none] at hl
      cases hl
      exact absurd (answered t (List.mem_of_getLast? none)) other

def impatient : Config :=
  { lively 0 with ackTimeoutOption := some (.ofSeconds 5), maxRetries := 0 }

def publishing : List Command :=
  [.connect 0 impatient, .opened 1 (.ok none), answer,
    .call (.publish 1 { qos := .exactlyOnce, topic := "t", payload := [] })]

def receipt : Command := .incoming 1 (.pubRec { packetId := 1, reason := .success })

def acknowledged : Engine := { publishing.foldl handle {} with now := 4000000000 }

def overdue : Engine := { acknowledged.handle receipt with now := 5000000000 }

def overdueLog : Log :=
  notedAll {} publishing ++ noted acknowledged (acknowledged.handle receipt)

theorem timely_overdue : Timely (publishing ++ [receipt]) overdue overdueLog := by
  have run : isRun [] {} publishing = true := by decide +kernel
  have waits : ∀ entry ∈ (publishing.foldl handle {}).timers.toList, 4000000000 ≤ entry.2.tick := by
    decide +kernel
  have possible : isPossible publishing acknowledged receipt = true := by decide +kernel
  have waits' : ∀ entry ∈ (acknowledged.handle receipt).timers.toList,
    5000000000 ≤ entry.2.tick := by decide +kernel
  have now : (acknowledged.handle receipt).now ≤ 5000000000 := by decide +kernel
  have published : Timely publishing acknowledged (notedAll {} publishing) :=
    (Elapses.refl.append run (by simp [publishing, answer])).clock _ (by decide +kernel) waits
  exact (published.handle (possible_of_isPossible possible) trivial).clock _ now waits'

theorem onTime_overdue : overdue.OnTime (.timer (.ack 1) 2) := by
  have due : (overdue.timers.get? (.ack 1)).all (·.tick ≤ overdue.now) = true := by decide +kernel
  intro a armed
  rw [armed, Option.all_some] at due
  exact of_decide_eq_true due

theorem ackTimeout_le_overdue :
    (overdue.timers.get? (.ack 1)).any (·.id == 2) = true ∧
    sendings 1 overdueLog = [0, 4000000000] ∧
    ∃ older sent releases, sendings 1 overdueLog = older ++ sent :: releases ∧
      sent + overdue.ackTimeout.nanos ≤ overdue.now ∧
      (∀ t ∈ releases, ReleasedAt 1 (publishing ++ [receipt]) overdue overdueLog t) ∧
      ∀ last, (sendings 1 overdueLog).getLast? = some last →
        ¬ ReleasedAt 1 (publishing ++ [receipt]) overdue overdueLog last →
        last + overdue.ackTimeout.nanos ≤ overdue.now := by
  have fires : (overdue.timers.get? (.ack 1)).any (·.id == 2) = true := by decide +kernel
  have sent : sendings 1 overdueLog = [0, 4000000000] := by decide +kernel
  exact ⟨fires, sent, ackTimeout_le_of_fires timely_overdue onTime_overdue fires⟩

/-- The timer may fire before the timeout has passed since the last packet of the transaction, and a
message whose release is not yet late fails. -/
theorem not_ackTimeout_le :
    ¬ ∀ past e log k id last, Timely past e log → Possible past e (.timer (.ack k) id) →
      e.OnTime (.timer (.ack k) id) → (e.timers.get? (.ack k)).any (·.id == id) = true →
      e.session.outgoing[k]? ≠ none → (sendings k log).getLast? = some last →
      last + e.ackTimeout.nanos ≤ e.now := by
  intro always
  have fires : (overdue.timers.get? (.ack 1)).any (·.id == 2) = true := by decide +kernel
  have inFlight : overdue.session.outgoing[(1 : UInt16)]? ≠ none := by decide +kernel
  have last : (sendings 1 overdueLog).getLast? = some 4000000000 := by decide +kernel
  have early : ¬ 4000000000 + overdue.ackTimeout.nanos ≤ overdue.now := by decide +kernel
  exact early (always _ _ _ _ _ _ timely_overdue ⟨nofun, nofun, nofun⟩ onTime_overdue fires
    inFlight last)

end MqttClient.Engine
