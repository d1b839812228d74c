import MqttClient.Engine.Handle
import MqttClient.Proofs.Listing

/-! Where the calls of a client are. A call that the engine took is answered or waits in one of
three places, and the account of a call counts its answers and the places where it waits. What moves
a call from one place to another, or answers it from there, leaves the account as it is. -/

namespace MqttClient

def Effect.answers (call : CallId) : Effect → Bool
  | .answer id _ => id == call
  | _ => false

def Effect.isAttempt : Effect → Bool
  | .attempt .. => true
  | _ => false

namespace Engine

def answers (e : Engine) (call : CallId) : Nat := e.effects.countP (Effect.answers call)

/-- How many places a call waits in. -/
def held (e : Engine) (call : CallId) : Nat :=
  (if e.connectCall = some call then 1 else 0)
    + e.pending.toList.countP (·.2.call? == some call)
    + e.backlog.countP (·.id == call)

def account (e : Engine) (call : CallId) : Nat := e.answers call + e.held call

def take (owed : CallId → Nat) (call : Option CallId) : CallId → Nat :=
  fun c => owed c + if call = some c then 1 else 0

@[simp]
theorem take_none (owed : CallId → Nat) : take owed none = owed := by
  funext c
  simp [take]

theorem account_emit (e : Engine) (x : Effect) (call : CallId) :
    (e.emit x).account call = e.account call + if x.answers call then 1 else 0 := by
  have h : (e.emit x).answers call = e.answers call + if x.answers call then 1 else 0 := by
    simp [answers, emit, List.countP_append, List.countP_singleton]
  change (e.emit x).answers call + e.held call = _
  rw [h, account]
  omega

theorem account_emit_answer (e : Engine) (call : CallId) (outcome : Except ClientError Reply) :
    (e.emit (.answer call outcome)).account = take e.account (some call) := by
  funext c
  rw [account_emit]
  simp [take, Effect.answers]

theorem account_connectCall {e : Engine} {call : CallId} (h : e.connectCall = some call) :
    take ({ e with connectCall := none } : Engine).account (some call) = e.account := by
  funext c
  simp only [take, account, answers, held, h]
  simp
  omega

theorem account_insert {e : Engine} {k : UInt16} (free : e.pending[k]? = none) (p : Pending) :
    ({ e with pending := e.pending.insert k p } : Engine).account = take e.account p.call? := by
  funext c
  have h := (Listing.toList_insert_perm_of_fresh (v := p) free).countP_eq
    (·.2.call? == some c)
  simp only [take, account, answers, held, h, List.countP_cons, beq_iff_eq]
  omega

theorem account_erase {e : Engine} {k : UInt16} {p : Pending} (h : e.pending[k]? = some p) :
    take (e.erasePending k).account p.call? = e.account := by
  funext c
  have h := (Listing.toList_perm_erase h).countP_eq (·.2.call? == some c)
  simp only [List.countP_cons, beq_iff_eq] at h
  rw [erasePending]
  simp only [take, account, answers, held]
  omega

theorem account_backlog_cons {e : Engine} {c : Call} {rest : List Call}
    (h : e.backlog = c :: rest) :
    take ({ e with backlog := rest } : Engine).account (some c.id) = e.account := by
  funext d
  simp only [take, account, answers, held, h, List.countP_cons, beq_iff_eq, Option.some.injEq]
  omega

theorem account_backlog_append (e : Engine) (c : Call) :
    ({ e with backlog := e.backlog ++ [c] } : Engine).account = take e.account (some c.id) := by
  funext d
  simp only [take, account, answers, held, List.countP_append, List.countP_singleton, beq_iff_eq,
    Option.some.injEq]
  omega

theorem account_backlog_filter_le (e : Engine) (call c : CallId) :
    ({ e with backlog := e.backlog.filter (·.id != call) } : Engine).account c ≤ e.account c := by
  have h : (e.backlog.filter (·.id != call)).countP (·.id == c)
      ≤ e.backlog.countP (·.id == c) := List.filter_sublist.countP_le
  simp only [account, answers, held]
  omega

theorem account_backlog_filter_of_ne (e : Engine) {call c : CallId} (ne : c ≠ call) :
    ({ e with backlog := e.backlog.filter (·.id != call) } : Engine).account c = e.account c := by
  have h : (e.backlog.filter (·.id != call)).countP (·.id == c)
      = e.backlog.countP (·.id == c) := by
    rw [List.countP_filter]
    refine List.countP_congr fun d _ => ?_
    simp only [Bool.and_eq_true, beq_iff_eq, bne_iff_ne, and_iff_left_iff_imp]
    exact fun e => e ▸ ne
  simp only [account, answers, held, h]

theorem foldl_failPending (err : ClientError) (l : List Pending) (e : Engine) :
    l.foldl (fun e p => e.failPending p err) e = { e with
      effects := e.effects
        ++ (l.filterMap Pending.call?).map fun c => .answer c (.error err) } := by
  induction l generalizing e with
  | nil => simp
  | cons p rest ih =>
    rw [List.foldl_cons, ih, failPending]
    split
    · next c h => simp [h, fail, emit]
    · next h => simp [h]

theorem foldl_fail (err : ClientError) (l : List Call) (e : Engine) :
    l.foldl (fun e c => e.fail c.id err) e = { e with
      effects := e.effects ++ l.map fun c => .answer c.id (.error err) } := by
  induction l generalizing e with
  | nil => simp
  | cons c rest ih =>
    rw [List.foldl_cons, ih]
    simp [fail, emit]

theorem failAll_eq (e : Engine) (err : ClientError) :
    e.failAll err = { e with
      effects := e.effects
        ++ (e.pending.values.filterMap Pending.call?).map (fun c => .answer c (.error err))
        ++ e.backlog.map (fun c => .answer c.id (.error err))
      pending := {}
      backlog := [] } := by
  simp only [failAll, foldl_failPending, foldl_fail]

theorem account_failAll (e : Engine) (err : ClientError) : (e.failAll err).account = e.account := by
  funext c
  have pending : (e.pending.values.filterMap Pending.call?).countP (· == c)
      = e.pending.toList.countP (·.2.call? == some c) := by
    rw [Listing.values_eq_map_toList, List.countP_filterMap, List.countP_map]
    refine List.countP_congr fun p _ => ?_
    cases h : p.2.call? <;> simp [h]
  simp only [failAll_eq, account, answers, held, List.countP_append, List.countP_map]
  have none : (∅ : Std.TreeMap UInt16 Pending).toList = [] := rfl
  simp [Function.comp_def, Effect.answers, pending, none]
  omega

end Engine

end MqttClient
