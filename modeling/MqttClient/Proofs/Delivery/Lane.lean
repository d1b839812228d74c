import Mathlib.Data.List.Basic

/-! What is under way between two sessions for one packet identifier, as far as exactly-once
messages go. A transaction first repeats its message and then its release; the receiver answers the
former with `received` and the latter with `completed`. Both queues keep their order, so that of an
older transaction only releases and their answers can still be under way when the next one opens:
`Lane.Ok` says so, and each of the things that can happen keeps it. -/

namespace MqttClient.Delivery

inductive Signal
  | message
  | release
  deriving DecidableEq, Repr

inductive Response
  | received
  | completed
  deriving DecidableEq, Repr

/-- How far the open transaction of the identifier has come, if there is one. -/
inductive Stage
  | closed
  | sent
  | released
  deriving DecidableEq, Repr

def Stage.signal? : Stage → Option Signal
  | closed => none
  | sent => some .message
  | released => some .release

@[ext]
structure Lane where
  stage : Stage
  held : Bool
  copies : Nat
  ahead : List Signal
  back : List Response

namespace Lane

def NoneAfter {α : Type} (a b : α) (l : List α) : Prop := l.Pairwise fun x y => x = a → y ≠ b

section NoneAfter

variable {α : Type} {a b c : α} {l : List α}

theorem noneAfter_of_notMem_left (h : a ∉ l) : NoneAfter a b l :=
  List.pairwise_of_forall_mem_list fun _ hx _ _ e => absurd (e ▸ hx) h

theorem NoneAfter.tail (h : NoneAfter a b (c :: l)) : NoneAfter a b l := (List.pairwise_cons.1 h).2

theorem NoneAfter.notMem (h : NoneAfter a b (a :: l)) : b ∉ l :=
  fun hb => (List.pairwise_cons.1 h).1 b hb rfl rfl

theorem NoneAfter.append (h : NoneAfter a b l) (hc : c ≠ b) : NoneAfter a b (l ++ [c]) := by
  refine List.pairwise_append.2 ⟨h, List.pairwise_singleton _ _, ?_⟩
  intro x _ y hy _
  exact List.mem_singleton.1 hy ▸ hc

end NoneAfter

/-- The order of events in a lane. Before the first release is sent, the message was handed on once
if the receiver has it and not at all otherwise; afterwards it was handed on once. -/
def Ok (l : Lane) : Prop :=
  match l.stage with
  | .closed => l.held = false ∧ .message ∉ l.ahead ∧ .received ∉ l.back
  | .sent =>
    l.copies = l.held.toNat ∧ (l.held = true → .release ∉ l.ahead) ∧
      (.received ∈ l.back → l.held = true) ∧
      NoneAfter .message .release l.ahead ∧ NoneAfter .received .completed l.back
  | .released =>
    l.copies = 1 ∧ (l.held = false → .message ∉ l.ahead) ∧
      (.completed ∈ l.back → l.held = false) ∧
      NoneAfter .release .message l.ahead ∧ NoneAfter .completed .received l.back

variable {l : Lane}

theorem Ok.open (h : l.Ok) (hs : l.stage = .closed) :
    Ok { l with stage := .sent, copies := 0, ahead := l.ahead ++ [.message] } := by
  simp only [Ok, hs] at h
  obtain ⟨hh, hm, hr⟩ := h
  exact ⟨by rw [hh]; rfl, by simp [hh], fun hb => absurd hb hr,
    (noneAfter_of_notMem_left hm).append (by decide), noneAfter_of_notMem_left hr⟩

theorem Ok.resend (h : l.Ok) : Ok { l with ahead := l.ahead ++ l.stage.signal?.toList } := by
  rcases l with ⟨stage, held, copies, ahead, back⟩
  cases stage with
  | closed => simpa [Ok, Stage.signal?] using h
  | sent =>
    obtain ⟨hc, hh, hr, ha, hb⟩ := h
    exact ⟨hc, fun e => by simpa [Stage.signal?] using hh e, hr, ha.append (by decide), hb⟩
  | released =>
    obtain ⟨hc, hh, hr, ha, hb⟩ := h
    exact ⟨hc, fun e => by simpa [Stage.signal?] using hh e, hr, ha.append (by decide), hb⟩

theorem Ok.message {rest : List Signal} (h : l.Ok) (ha : l.ahead = .message :: rest) :
    Ok { l with
         held := true
         copies := if l.held then l.copies else l.copies + 1
         ahead := rest
         back := l.back ++ [.received] } := by
  rcases l with ⟨stage, held, copies, ahead, back⟩
  cases ha
  cases stage with
  | closed => exact absurd List.mem_cons_self h.2.1
  | sent =>
    obtain ⟨hc, hh, hr, ha, hb⟩ := h
    refine ⟨?_, fun _ => ha.notMem, fun _ => rfl, ha.tail, hb.append (by decide)⟩
    cases held <;> simp_all
  | released =>
    obtain ⟨hc, hh, hr, ha, hb⟩ := h
    have hheld : held = true := by
      cases held
      · exact absurd List.mem_cons_self (hh rfl)
      · rfl
    subst hheld
    refine ⟨hc, nofun, fun hb => ?_, ha.tail, ?_⟩
    · exact Bool.noConfusion (hr (by simpa using hb))
    · have none : .completed ∉ back := fun hm => Bool.noConfusion (hr hm)
      exact noneAfter_of_notMem_left (by simpa using none)

theorem Ok.release {rest : List Signal} (h : l.Ok) (ha : l.ahead = .release :: rest) :
    Ok { l with held := false, ahead := rest, back := l.back ++ [.completed] } := by
  rcases l with ⟨stage, held, copies, ahead, back⟩
  cases ha
  cases stage with
  | closed =>
    obtain ⟨-, hm, hr⟩ := h
    exact ⟨rfl, fun hm' => hm (List.mem_cons_of_mem _ hm'), by simpa using hr⟩
  | sent =>
    obtain ⟨hc, hh, hr, ha, hb⟩ := h
    have hheld : held = false := by
      cases held
      · rfl
      · exact absurd List.mem_cons_self (hh rfl)
    subst hheld
    have none : .received ∉ back := fun hm => Bool.noConfusion (hr hm)
    exact ⟨hc, nofun, fun hm => absurd (by simpa using hm) none, ha.tail,
      noneAfter_of_notMem_left (by simpa using none)⟩
  | released =>
    obtain ⟨hc, -, -, ha, hb⟩ := h
    exact ⟨hc, fun _ => ha.notMem, fun _ => rfl, ha.tail, hb.append (by decide)⟩

theorem Ok.stage_ne_closed {rest : List Response} (h : l.Ok) (hb : l.back = .received :: rest) :
    l.stage ≠ .closed := by
  intro hs
  simp [Ok, hs, hb] at h

theorem Ok.received {rest : List Response} (h : l.Ok) (hb : l.back = .received :: rest) :
    Ok { l with stage := .released, ahead := l.ahead ++ [.release], back := rest } := by
  rcases l with ⟨stage, held, copies, ahead, back⟩
  cases hb
  cases stage with
  | closed => exact absurd List.mem_cons_self h.2.2
  | sent =>
    obtain ⟨hc, hh, hr, ha, hb⟩ := h
    have hheld : held = true := hr List.mem_cons_self
    subst hheld
    exact ⟨hc, nofun, fun hm => absurd hm hb.notMem,
      (noneAfter_of_notMem_left (hh rfl)).append (by decide), noneAfter_of_notMem_left hb.notMem⟩
  | released =>
    obtain ⟨hc, hh, hr, ha, hb⟩ := h
    exact ⟨hc, fun e => by simpa using hh e, fun hm => hr (List.mem_cons_of_mem _ hm),
      ha.append (by decide), hb.tail⟩

theorem Ok.completed {rest : List Response} (h : l.Ok) (hb : l.back = .completed :: rest) :
    Ok { l with
         stage := if l.stage = .released then .closed else l.stage
         copies := if l.stage = .released then 0 else l.copies
         back := rest } := by
  rcases l with ⟨stage, held, copies, ahead, back⟩
  cases hb
  cases stage with
  | closed =>
    obtain ⟨hh, hm, hr⟩ := h
    exact ⟨hh, hm, fun hm' => hr (List.mem_cons_of_mem _ hm')⟩
  | sent =>
    -- the answer is to the release of an older transaction
    obtain ⟨hc, hh, hr, ha, hb⟩ := h
    exact ⟨hc, hh, fun hm => hr (List.mem_cons_of_mem _ hm), ha, hb.tail⟩
  | released =>
    obtain ⟨-, hh, hr, -, hb⟩ := h
    have hheld := hr List.mem_cons_self
    exact ⟨hheld, hh hheld, hb.notMem⟩

theorem Ok.reset (h : l.Ok) : Ok { l with ahead := l.stage.signal?.toList, back := [] } := by
  rcases l with ⟨stage, held, copies, ahead, back⟩
  cases stage with
  | closed => exact ⟨h.1, by simp [Stage.signal?], by simp⟩
  | sent =>
    exact ⟨h.1, fun _ => by simp [Stage.signal?], by simp, List.pairwise_singleton _ _, .nil⟩
  | released =>
    exact ⟨h.1, fun _ => by simp [Stage.signal?], by simp, List.pairwise_singleton _ _, .nil⟩

theorem Ok.copies_le_one (h : l.Ok) (hs : l.stage ≠ .closed) : l.copies ≤ 1 := by
  rcases l with ⟨stage, held, copies, ahead, back⟩
  cases stage with
  | closed => exact absurd rfl hs
  | sent =>
    have := h.1
    cases held <;> simp_all
  | released => exact Nat.le_of_eq h.1

end Lane

end MqttClient.Delivery
