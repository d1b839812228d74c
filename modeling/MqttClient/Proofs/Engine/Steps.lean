import MqttClient.Proofs.Engine.Courses
import MqttClient.Proofs.Engine.Run

/-! Runs, step by step: induction goes by the courses of the commands, a run may go on from any of
its engines, and whether a list of commands is a run can be computed. -/

namespace MqttClient

def Effect.asks (epoch : Nat) : Effect → Bool
  | .attempt n _ _ => n == epoch
  | _ => false

def Command.opens (epoch : Nat) : Command → Bool
  | .opened n (.ok _) => n == epoch
  | _ => false

theorem Command.opens_iff {c : Command} {epoch : Nat} : c.opens epoch = true ↔ c.Opens epoch := by
  unfold Opens
  cases c with
  | opened n result => cases result <;> simp [opens]
  | _ => simp [opens]

namespace Engine

def isHeard (past : List Command) (e : Engine) : Command → Bool
  | .opened epoch _ => e.effects.any (Effect.asks epoch)
  | .incoming epoch _ => past.any (Command.opens epoch)
  | _ => true

/-- What the world keeps to, computed. -/
def isPossible (past : List Command) (e : Engine) (c : Command) : Bool :=
  (c.call?.all fun call => past.all fun d => d.call? != some call) && isHeard past e c

theorem possible_of_isPossible {past : List Command} {e : Engine} {c : Command}
    (h : isPossible past e c = true) : Possible past e c := by
  rw [isPossible, Bool.and_eq_true] at h
  obtain ⟨fresh, heard⟩ := h
  refine ⟨fun call hc d hd => ?_, ?_, ?_⟩
  · rw [hc, Option.all_some, List.all_eq_true] at fresh
    simpa using fresh d hd
  · rintro epoch result rfl
    obtain ⟨x, hx, asks⟩ := List.any_eq_true.1 heard
    cases x with
    | attempt n host port => exact ⟨host, port, eq_of_beq asks ▸ hx⟩
    | _ => cases asks
  · rintro epoch packet rfl
    obtain ⟨d, hd, opens⟩ := List.any_eq_true.1 heard
    exact ⟨d, hd, Command.opens_iff.1 opens⟩

def isRun (past : List Command) (e : Engine) : List Command → Bool
  | [] => true
  | c :: rest => isPossible past e c && isRun (past ++ [c]) (e.handle c) rest

theorem Reachable.append {past cs : List Command} {e : Engine} (h : Reachable past e)
    (run : isRun past e cs = true) : Reachable (past ++ cs) (cs.foldl Engine.handle e) := by
  induction cs generalizing past e with
  | nil => rwa [List.append_nil]
  | cons c rest ih =>
    rw [isRun, Bool.and_eq_true] at run
    have next := ih (h.handle (possible_of_isPossible run.1)) run.2
    rwa [List.append_assoc] at next

theorem reachable_of_isRun {cs : List Command} (run : isRun [] {} cs = true) :
    Reachable cs (cs.foldl handle {}) :=
  Reachable.append .start run

inductive Drifts (e : Engine) : Engine → Prop
  | clock (now : Time) : Drifts e { e with now }
  | draw (draw : Nat) : Drifts e { e with draw }
  | room (room : Option Nat) :
    Drifts e { e with link := e.link.map fun link => { link with room } }
  | abandon (call : CallId) : Drifts e (e.abandon call)

theorem Drifts.rests {e d : Engine} (h : Drifts e d) : Rests e d := by
  cases h <;> exact .of_eq rfl rfl rfl rfl rfl rfl

theorem Reachable.drift {past : List Command} {e d : Engine} (h : Reachable past e)
    (hd : Drifts e d) : Reachable past d := by
  cases hd with
  | clock now => exact .clock now h
  | draw draw => exact .draw draw h
  | room room => exact .room room h
  | abandon call => exact .abandon call h

theorem Reachable.course_induction {motive : ∀ past e, Reachable past e → Prop}
    (start : motive [] {} .start)
    (handle : ∀ {past e c} (reached : Reachable past e) (possible : Possible past e c),
      Course e c (e.handle c) → motive past e reached →
      motive (past ++ [c]) (e.handle c) (.handle reached possible))
    (drift : ∀ {past e d} (reached : Reachable past e) (drifts : Drifts e d),
      motive past e reached → motive past d (reached.drift drifts))
    {past : List Command} {e : Engine} (h : Reachable past e) : motive past e h := by
  induction h with
  | start => exact start
  | @handle past e c reached possible ih =>
    exact handle reached possible (reached.accounted.settled.course c) ih
  | clock now reached ih => exact drift reached (.clock now) ih
  | draw draw reached ih => exact drift reached (.draw draw) ih
  | room room reached ih => exact drift reached (.room room) ih
  | abandon call reached ih => exact drift reached (.abandon call) ih

inductive Leads (past₀ : List Command) (e₀ : Engine) : List Command → Engine → Prop
  | refl : Leads past₀ e₀ past₀ e₀
  | handle {past e c} : Leads past₀ e₀ past e → Possible past e c →
    Leads past₀ e₀ (past ++ [c]) (e.handle c)
  | drift {past e d} : Leads past₀ e₀ past e → Drifts e d → Leads past₀ e₀ past d

theorem Leads.append {past₀ past cs : List Command} {e₀ e : Engine} (h : Leads past₀ e₀ past e)
    (run : isRun past e cs = true) :
    Leads past₀ e₀ (past ++ cs) (cs.foldl Engine.handle e) := by
  induction cs generalizing past e with
  | nil => rwa [List.append_nil]
  | cons c rest ih =>
    rw [isRun, Bool.and_eq_true] at run
    have next := ih (h.handle (possible_of_isPossible run.1)) run.2
    rwa [List.append_assoc] at next

variable {past : List Command} {e d : Engine} {c : Command}

theorem keeps_request (e : Engine) (c : Call) : Keeps e (e.request c false) := by
  obtain rests | ⟨-, -, -, grows⟩ | ⟨-, -, held⟩ := e.request_cases c
  · exact rests.toKeeps
  · exact grows.toKeeps
  · rw [held]
    exact ⟨rfl, fun _ => rfl⟩

theorem Course.config_eq (h : Course e c d) :
    d.config = e.config ∨ ∃ call config, c = .connect call config ∧ d.config = some config := by
  cases h with
  | rests rests => exact .inl rests.config_eq
  | @drained m _ recedes rests =>
    exact .inl (rests.config_eq.trans (m.keeps_drainBacklog.config_eq.trans recedes.config_eq))
  | @requested call _ => exact .inl (e.keeps_request call).config_eq
  | attempted attempts => exact attempts.config_eq
  | greeted _ _ _ _ opens _ rests => exact .inl (rests.config_eq.trans opens.config_eq)
  | @resumed _ _ m _ _ _ _ opens _ rests =>
    have drained := m.resubscribe.keeps_drainBacklog.config_eq
    have resubscribed : m.resubscribe.config = m.config := by
      obtain rests | ⟨-, grows⟩ := m.resubscribe_cases
      · exact rests.config_eq
      · exact grows.config_eq
    exact .inl (rests.config_eq.trans (drained.trans (resubscribed.trans opens.config_eq)))

theorem Reachable.configured (h : Reachable past e) {config : Config}
    (he : e.config = some config) : ∃ call, .connect call config ∈ past := by
  induction h using Reachable.course_induction with
  | start => cases he
  | handle _ _ course ih =>
    obtain same | ⟨call, asked, rfl, hc⟩ := course.config_eq
    · obtain ⟨call, hm⟩ := ih (same.symm.trans he)
      exact ⟨call, List.mem_append_left _ hm⟩
    · cases hc.symm.trans he
      exact ⟨call, by simp⟩
  | drift _ drifts ih => exact ih (drifts.rests.config_eq.symm.trans he)

end Engine

end MqttClient
