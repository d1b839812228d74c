import Mathlib.Algebra.Ring.Nat
import Mathlib.Data.List.Basic
import Mathlib.Data.List.Induction
import MqttClient.Backoff
import MqttClient.Proofs.Listing

/-! The delays between attempts over a whole history of connections and failures. The failures in a
row are counted from the latest that hit a stable connection, or else from the start, up to a cap.
The delay is fixed by their number, but for the jitter: it lies between the doubled least delay and
the same with all of the jitter, neither beyond the largest. -/

namespace MqttClient

namespace Duration

theorem nanos_scale (d : Duration) (k : Nat) :
    (d.scale k).nanos = Min.min (d.nanos * k) maxNanos := rfl

theorem nanos_add (a b : Duration) : (a.add b).nanos = Min.min (a.nanos + b.nanos) maxNanos := rfl

theorem nanos_min (a b : Duration) : (a.min b).nanos = Min.min a.nanos b.nanos := by
  change Duration.nanos (if a.nanos ≤ b.nanos then a else b) = _
  split <;> omega

theorem le_iff {a b : Duration} : a ≤ b ↔ a.nanos ≤ b.nanos := Iff.rfl

theorem ext_nanos {a b : Duration} (h : a.nanos = b.nanos) : a = b := by
  cases a
  cases b
  cases h
  rfl

theorem scale_one (d : Duration) : d.scale 1 = d := by
  refine ext_nanos ?_
  rw [nanos_scale, Nat.mul_one]
  exact Nat.min_eq_left d.nanos_le

end Duration

namespace Backoff

inductive Happening
  | established
  | failed
  | passed (d : Duration)
  deriving DecidableEq

def step : Time × Backoff → Happening → Time × Backoff
  | (now, b), .established => (now, b.onEstablished now)
  | (now, b), .failed => (now, b.onFailed now)
  | (now, b), .passed d => (now + d.nanos, b)

def after (stableAfter : Duration) (options : ReconnectOptions) (past : List Happening) : Backoff :=
  (past.foldl step (0, { stableAfter, options })).2

def Happening.span : Happening → Time
  | established => 0
  | failed => 0
  | passed d => d.nanos

def clock (past : List Happening) : Time := past.foldl (fun now x => now + x.span) 0

/-- The connection at the end of a history was established at that time, and is not lost. -/
def UpSince (past : List Happening) (start : Time) : Prop :=
  ∃ earlier later, past = earlier ++ .established :: later ∧ start = clock earlier ∧
    ∀ x ∈ later, x ≠ .established ∧ x ≠ .failed

/-- The connection at the end of a history has lasted longer than the threshold, as far as a span
can tell. -/
def Stable (stableAfter : Duration) (past : List Happening) : Prop :=
  ∃ start, UpSince past start ∧ stableAfter < Duration.between start (clock past)

/-- Some failure among what comes `later` hits a stable connection. -/
def Restarts (stableAfter : Duration) (earlier later : List Happening) : Prop :=
  ∃ before behind, later = before ++ .failed :: behind ∧ Stable stableAfter (earlier ++ before)

/-- The end of a history from and including the latest failure that hit a stable connection, or all
of the history if there is none. -/
def IsRow (stableAfter : Duration) (past row : List Happening) : Prop :=
  ∃ earlier, past = earlier ++ row ∧
    (earlier = [] ∧ ¬ Restarts stableAfter [] row ∨
      ∃ later, row = .failed :: later ∧ Stable stableAfter earlier ∧
        ¬ Restarts stableAfter (earlier ++ [.failed]) later)

variable {stableAfter : Duration} {options : ReconnectOptions}
  {past earlier later row : List Happening} {x : Happening} {start : Time}

theorem clock_concat (past : List Happening) (x : Happening) :
    clock (past ++ [x]) = clock past + x.span := by
  simp [clock]

theorem fst_foldl_step (b : Backoff) (past : List Happening) :
    (past.foldl step (0, b)).1 = clock past := by
  induction past using List.reverseRecOn with
  | nil => rfl
  | append_singleton past x ih =>
    rw [List.foldl_concat, clock_concat, ← ih]
    cases x <;> rfl

theorem after_concat (past : List Happening) (x : Happening) :
    after stableAfter options (past ++ [x]) =
      (step (clock past, after stableAfter options past) x).2 := by
  rw [after, List.foldl_concat, ← fst_foldl_step, after]

theorem upSince_concat :
    UpSince (past ++ [x]) start ↔
      x = .established ∧ start = clock past ∨
        UpSince past start ∧ x ≠ .established ∧ x ≠ .failed := by
  constructor
  · rintro ⟨earlier, later, split, at_start, quiet⟩
    obtain ⟨rfl, rfl, -⟩ | ⟨later, rfl, rfl⟩ := Listing.concat_eq_append_cons_iff.1 split
    · exact .inl ⟨rfl, at_start⟩
    · rw [List.forall_mem_append] at quiet
      exact .inr ⟨⟨earlier, later, rfl, at_start, quiet.1⟩, quiet.2 x List.mem_cons_self⟩
  · rintro (⟨rfl, at_start⟩ | ⟨⟨earlier, later, rfl, at_start, quiet⟩, other⟩)
    · exact ⟨past, [], rfl, at_start, List.forall_mem_nil _⟩
    · exact ⟨earlier, later ++ [x], by simp, at_start,
        List.forall_mem_append.2 ⟨quiet, List.forall_mem_singleton.2 other⟩⟩

theorem restarts_concat :
    Restarts stableAfter earlier (later ++ [x]) ↔
      Restarts stableAfter earlier later ∨ x = .failed ∧ Stable stableAfter (earlier ++ later) := by
  constructor
  · rintro ⟨before, behind, split, stable⟩
    obtain ⟨rfl, rfl, -⟩ | ⟨behind, -, rfl⟩ := Listing.concat_eq_append_cons_iff.1 split
    · exact .inr ⟨rfl, stable⟩
    · exact .inl ⟨before, behind, rfl, stable⟩
  · rintro (⟨before, behind, rfl, stable⟩ | ⟨rfl, stable⟩)
    · exact ⟨before, behind ++ [x], by simp, stable⟩
    · exact ⟨later, [], rfl, stable⟩

theorem not_restarts_nil (earlier : List Happening) : ¬ Restarts stableAfter earlier [] := by
  rintro ⟨before, behind, split, -⟩
  simp at split

theorem after_eq (past : List Happening) :
    (after stableAfter options past).stableAfter = stableAfter ∧
      (after stableAfter options past).options = options := by
  induction past using List.reverseRecOn with
  | nil => exact ⟨rfl, rfl⟩
  | append_singleton past x ih =>
    rw [after_concat]
    cases x <;> exact ih

theorem established_after (past : List Happening) (start : Time) :
    (after stableAfter options past).established = some start ↔ UpSince past start := by
  induction past using List.reverseRecOn with
  | nil =>
    refine ⟨nofun, ?_⟩
    rintro ⟨earlier, later, split, -⟩
    simp at split
  | append_singleton past x ih =>
    rw [after_concat, upSince_concat]
    cases x with
    | established => simp [step, onEstablished, eq_comm]
    | failed => simp [step, onFailed]
    | passed d => simp [step, ih]

theorem isStable_after (options : ReconnectOptions) (past : List Happening) :
    (after stableAfter options past).isStable (clock past) = true ↔ Stable stableAfter past := by
  simp only [isStable, Option.any_eq_true, decide_eq_true_eq, established_after,
    (after_eq past).1, Stable]

theorem attempts_onFailed (past : List Happening) :
    (Stable stableAfter past → (after stableAfter options (past ++ [.failed])).attempts = 1) ∧
    (¬ Stable stableAfter past → (after stableAfter options (past ++ [.failed])).attempts =
      min ((after stableAfter options past).attempts + 1) maxAttempts) := by
  rw [after_concat, ← isStable_after options]
  change (_ → min (_ + 1) maxAttempts = 1) ∧ (_ → min (_ + 1) maxAttempts = _)
  constructor
  · intro stable
    rw [if_pos stable]
    rfl
  · intro unstable
    rw [if_neg unstable]

theorem attempts_append (options : ReconnectOptions) (calm : ¬ Restarts stableAfter earlier later)
    (capped : (after stableAfter options earlier).attempts ≤ maxAttempts) :
    (after stableAfter options (earlier ++ later)).attempts =
      min ((after stableAfter options earlier).attempts + later.count .failed) maxAttempts := by
  induction later using List.reverseRecOn with
  | nil => simpa using (Nat.min_eq_left capped).symm
  | append_singleton later x ih =>
    rw [restarts_concat, not_or, not_and] at calm
    have ih := ih calm.1
    rw [← List.append_assoc, List.count_append]
    cases x with
    | failed =>
      rw [(attempts_onFailed _).2 (calm.2 rfl), ih, List.count_singleton_self]
      omega
    | established | passed =>
      rw [after_concat]
      simpa [step, onEstablished] using ih

theorem attempts_of_isRow (isRow : IsRow stableAfter past row) :
    (after stableAfter options past).attempts = min (row.count .failed) maxAttempts := by
  obtain ⟨earlier, rfl, ⟨rfl, calm⟩ | ⟨later, rfl, stable, calm⟩⟩ := isRow
  · have start : (after stableAfter options []).attempts = 0 := rfl
    simpa [start] using attempts_append options calm (start ▸ Nat.zero_le _)
  · have restart : (after stableAfter options (earlier ++ [.failed])).attempts = 1 :=
      (attempts_onFailed earlier).1 stable
    rw [List.append_cons, attempts_append options calm (restart ▸ by decide), restart,
      List.count_cons_self, Nat.add_comm]

theorem exists_isRow (stableAfter : Duration) (past : List Happening) :
    ∃ row, IsRow stableAfter past row := by
  induction past using List.reverseRecOn with
  | nil => exact ⟨[], [], rfl, .inl ⟨rfl, not_restarts_nil []⟩⟩
  | append_singleton past x ih =>
    by_cases restart : x = .failed ∧ Stable stableAfter past
    · obtain ⟨rfl, stable⟩ := restart
      exact ⟨[.failed], past, rfl, .inr ⟨[], rfl, stable, not_restarts_nil _⟩⟩
    · obtain ⟨row, earlier, rfl, ⟨rfl, calm⟩ | ⟨later, rfl, stable, calm⟩⟩ := ih
      · refine ⟨row ++ [x], [], by simp, .inl ⟨rfl, ?_⟩⟩
        rw [restarts_concat, not_or]
        exact ⟨calm, restart⟩
      · refine ⟨.failed :: (later ++ [x]), earlier, by simp, .inr ⟨_, rfl, stable, ?_⟩⟩
        rw [restarts_concat, not_or, ← List.append_cons]
        exact ⟨calm, restart⟩

theorem attempts_le (past : List Happening) :
    (after stableAfter options past).attempts ≤ maxAttempts := by
  obtain ⟨row, isRow⟩ := exists_isRow stableAfter past
  rw [attempts_of_isRow isRow]
  exact Nat.min_le_right ..

theorem jitter_le (b : Backoff) (draw : Nat) : b.jitter draw ≤ b.options.jitter := by
  rw [jitter]
  split
  · exact Nat.zero_le _
  · next some =>
    have drawn : draw % b.jitterMillis < b.jitterMillis := Nat.mod_lt _ (Nat.pos_of_ne_zero some)
    have counted : b.jitterMillis ≤ b.options.jitter.millis := Nat.mod_le ..
    have whole : b.options.jitter.millis * 1000000 ≤ b.options.jitter.nanos :=
      Nat.div_mul_le_self ..
    change min (draw % b.jitterMillis * 1000000) Duration.maxNanos ≤ b.options.jitter.nanos
    omega

theorem jitter_of_zero (b : Backoff) (steady : b.options.jitter = .zero) (draw : Nat) :
    b.jitter draw = .zero := by
  have none : b.jitterMillis = 0 := by
    rw [jitterMillis, steady]
    rfl
  rw [jitter, if_pos none]

def base (b : Backoff) : Duration := b.options.minBackoff.scale (2 ^ (b.attempts - 1))

theorem nextDelay_of_zero (b : Backoff) (fresh : b.attempts = 0) (draw : Nat) :
    b.nextDelay draw = .zero := by
  rw [nextDelay, if_pos fresh]

theorem nextDelay_of_ne_zero (b : Backoff) (failed : b.attempts ≠ 0) (draw : Nat) :
    b.nextDelay draw = (b.base.add (b.jitter draw)).min b.options.maxBackoff := by
  rw [nextDelay, if_neg failed]
  rfl

theorem nextDelay_le (b : Backoff) (draw : Nat) : b.nextDelay draw ≤ b.options.maxBackoff := by
  by_cases fresh : b.attempts = 0
  · rw [b.nextDelay_of_zero fresh]
    exact Nat.zero_le _
  · rw [b.nextDelay_of_ne_zero fresh, Duration.le_iff, Duration.nanos_min]
    exact Nat.min_le_right ..

theorem nextDelay_bounds (b : Backoff) (failed : b.attempts ≠ 0) (draw : Nat) :
    b.base.min b.options.maxBackoff ≤ b.nextDelay draw ∧
      b.nextDelay draw ≤ (b.base.add b.options.jitter).min b.options.maxBackoff := by
  have drawn : (b.jitter draw).nanos ≤ b.options.jitter.nanos := b.jitter_le draw
  have bound : b.base.nanos ≤ Duration.maxNanos := b.base.nanos_le
  simp only [b.nextDelay_of_ne_zero failed, Duration.le_iff, Duration.nanos_min, Duration.nanos_add]
  omega

theorem nextDelay_of_steady (b : Backoff) (failed : b.attempts ≠ 0)
    (steady : b.options.jitter = .zero) (draw : Nat) :
    b.nextDelay draw = b.base.min b.options.maxBackoff := by
  have bound : b.base.nanos ≤ Duration.maxNanos := b.base.nanos_le
  rw [b.nextDelay_of_ne_zero failed, b.jitter_of_zero steady]
  refine Duration.ext_nanos ?_
  rw [Duration.nanos_min, Duration.nanos_min, Duration.nanos_add]
  exact congrArg (min · _) (Nat.min_eq_left bound)

theorem nextDelay_mono {b c : Backoff} (same : c.options = b.options)
    (steady : b.options.jitter = .zero) (le : b.attempts ≤ c.attempts) (draw draw' : Nat) :
    b.nextDelay draw ≤ c.nextDelay draw' := by
  by_cases fresh : b.attempts = 0
  · rw [b.nextDelay_of_zero fresh]
    exact Nat.zero_le _
  · have doubled : 2 ^ (b.attempts - 1) ≤ 2 ^ (c.attempts - 1) :=
      Nat.pow_le_pow_right Nat.two_pos (Nat.sub_le_sub_right le 1)
    have grown : b.options.minBackoff.nanos * 2 ^ (b.attempts - 1) ≤
        b.options.minBackoff.nanos * 2 ^ (c.attempts - 1) := Nat.mul_le_mul_left _ doubled
    rw [b.nextDelay_of_steady fresh steady, c.nextDelay_of_steady (by omega) (same ▸ steady),
      Duration.le_iff, Duration.nanos_min, Duration.nanos_min, base, base, Duration.nanos_scale,
      Duration.nanos_scale, same]
    omega

/-- The failures in a row give the delay of the next attempt, for every history and every draw: none
before a failure, and otherwise the least delay doubled with each failure but the first, with up to
all of the jitter on top, and no more than the largest. No factor leaves thirty-two bits. Without
jitter the delays grow until a stable connection is lost, and start anew with the least. -/
theorem delays_of_history (stableAfter : Duration) (options : ReconnectOptions)
    (past : List Happening) :
    let b := after stableAfter options past
    let base := options.minBackoff.scale (2 ^ (b.attempts - 1))
    (∃ row, IsRow stableAfter past row) ∧
    (∀ row, IsRow stableAfter past row → b.attempts = min 32 (row.count .failed)) ∧
    2 ^ (b.attempts - 1) < UInt32.size ∧
    (∀ draw, b.nextDelay draw ≤ options.maxBackoff ∧
      (b.attempts = 0 → b.nextDelay draw = .zero) ∧
      (b.attempts ≠ 0 → base.min options.maxBackoff ≤ b.nextDelay draw ∧
        b.nextDelay draw ≤ (base.add options.jitter).min options.maxBackoff)) ∧
    (options.jitter = .zero →
      (∀ later draw draw', ¬ Restarts stableAfter past later →
        b.nextDelay draw ≤ (after stableAfter options (past ++ later)).nextDelay draw') ∧
      (Stable stableAfter past → ∀ draw,
        (after stableAfter options (past ++ [.failed])).nextDelay draw =
          options.minBackoff.min options.maxBackoff)) := by
  intro b base
  have kept : b.options = options := (after_eq past).2
  have capped : b.attempts ≤ maxAttempts := attempts_le past
  refine ⟨exists_isRow stableAfter past, fun row isRow => ?_, ?_, fun draw => ⟨?_, ?_, ?_⟩,
    fun steady => ⟨fun later draw draw' calm => ?_, fun stable draw => ?_⟩⟩
  · rw [attempts_of_isRow isRow, Nat.min_comm]
    rfl
  · have small : b.attempts - 1 ≤ 31 := Nat.sub_le_sub_right capped 1
    exact Nat.lt_of_le_of_lt (Nat.pow_le_pow_right Nat.two_pos small) (by decide)
  · exact kept ▸ b.nextDelay_le draw
  · exact fun fresh => b.nextDelay_of_zero fresh draw
  · exact fun failed => by simpa only [Backoff.base, kept] using b.nextDelay_bounds failed draw
  · refine nextDelay_mono ((after_eq _).2.trans kept.symm) (kept.symm ▸ steady) ?_ draw draw'
    rw [attempts_append options calm capped]
    exact Nat.le_min.2 ⟨Nat.le_add_right .., capped⟩
  · have restart : (after stableAfter options (past ++ [.failed])).attempts = 1 :=
      (attempts_onFailed past).1 stable
    have options_eq : (after stableAfter options (past ++ [.failed])).options = options :=
      (after_eq _).2
    rw [nextDelay_of_steady _ (by simp [restart]) (options_eq.symm ▸ steady), Backoff.base, restart,
      options_eq]
    exact congrArg (fun d : Duration => d.min options.maxBackoff) (Duration.scale_one _)

def steady : ReconnectOptions := { maxBackoff := .ofSeconds 10, jitter := .zero }

def recovered : List Happening :=
  [.failed, .failed, .established, .passed (.ofSeconds 31)]

theorem delays_recovered :
    steady.jitter = .zero ∧ Stable (.ofSeconds 30) recovered ∧
      (after (.ofSeconds 30) steady (recovered ++ [.failed])).nextDelay 7 = .ofSeconds 1 := by
  have stable : Stable (.ofSeconds 30) recovered :=
    ⟨0, ⟨[.failed, .failed], [.passed (.ofSeconds 31)], rfl, rfl, by decide⟩, by decide⟩
  obtain ⟨-, -, -, -, restarts⟩ := delays_of_history (.ofSeconds 30) steady recovered
  exact ⟨rfl, stable, ((restarts rfl).2 stable 7).trans (by decide)⟩

end Backoff

end MqttClient
