import Mathlib.Data.List.Forall2
import Mathlib.Data.List.Perm.Subperm
import Mathlib.Data.List.Sort
import MqttClient.Proofs.Session.Resending

/-! What a replay makes of the open transactions. The table has them in the order of their
identifiers, which start again from 1, so that the order in which they were accepted is found in
their numbers only. These ascend over a whole history, whatever ended or was replayed in between. -/

namespace MqttClient

/-- The packet takes the transaction up where it stands. -/
inductive Transaction.Resumes (t : Transaction) : Packet → Prop
  | message {p : Publish} (phase : t.phase = .sent) (hp : t.packet = .publish p)
    (hq : p.qos ≠ .atMostOnce) : Resumes t (.publish { p with dup := true })
  | release {p : Publish} (phase : t.phase = .released) (hp : t.packet = .publish p)
    (hq : p.qos = .exactlyOnce) :
    Resumes t (.pubRel { packetId := t.packetId, reason := .success })
  | subscription {p : Subscribe} (phase : t.phase = .subscribing) (hp : t.packet = .subscribe p) :
    Resumes t (.subscribe p)
  | unsubscription {p : Unsubscribe} (phase : t.phase = .unsubscribing)
    (hp : t.packet = .unsubscribe p) : Resumes t (.unsubscribe p)

theorem Transaction.Fits.resumes {t : Transaction} {k : UInt16} (h : t.Fits k) :
    t.Resumes t.resend := by
  obtain ⟨p, phase, hp, -, hq, he⟩ | ⟨p, phase, hp, hq, he⟩ | ⟨p, phase, hp, -, he⟩ |
    ⟨p, phase, hp, -, he⟩ := h.resend_cases
  all_goals rw [he]
  · exact .message phase hp hq
  · rw [← h.packetId_eq]
    exact .release phase hp hq
  · exact .subscription phase hp
  · exact .unsubscription phase hp

def Transaction.accepted (t : Transaction) : Nat × Packet := (t.order, t.packet)

namespace Session

theorem nodup_orders {s : Session} (h : s.IsSound) : s.orders.Nodup := by
  rw [(orders_perm s).nodup_iff]
  refine (Listing.nodup_toList s.outgoing).map_on ?_
  rintro ⟨j, t⟩ ht ⟨k, u⟩ hu same
  rw [Std.TreeMap.mem_toList_iff_getElem?_eq_some] at ht hu
  obtain rfl := h.order_inj ht hu same
  cases ht.symm.trans hu
  rfl

theorem orders_ascending {s : Session} (h : s.IsSound) : s.orders.Pairwise (· < ·) := by
  have sorted : s.orders.Pairwise (· ≤ ·) := by
    refine List.Pairwise.map _ (fun _ _ le => of_decide_eq_true le)
      (List.pairwise_mergeSort ?_ ?_ _)
    · simp only [decide_eq_true_eq]
      exact fun _ _ _ => Nat.le_trans
    · simp only [Bool.or_eq_true, decide_eq_true_eq]
      exact fun _ _ => Nat.le_total _ _
  exact (sorted.and (nodup_orders h)).imp fun ⟨le, ne⟩ => Nat.lt_of_le_of_ne le ne

theorem Arises.accepted_sublist {past : List (Session × Operation)} {s : Session}
    (h : Arises past s) :
    (s.transactions.map Transaction.accepted).Sublist
      ((allOpened past).map Transaction.accepted) := by
  -- both lists ascend, so that it is enough that what is open was opened
  have : Std.Antisymm fun a b : Nat × Packet => a.1 < b.1 :=
    ⟨fun _ _ lt gt => absurd gt (Nat.lt_asymm lt)⟩
  have ascending : (s.transactions.map Transaction.accepted).Pairwise (·.1 < ·.1) :=
    List.pairwise_map.2 (List.pairwise_map.1 (orders_ascending h.traced.sound))
  have opened : ((allOpened past).map Transaction.accepted).Pairwise (·.1 < ·.1) :=
    List.pairwise_map.2 (List.pairwise_map.1 h.ascending.1)
  refine List.sublist_of_subperm_of_pairwise (List.Nodup.subperm ?_ ?_) ascending opened
  · exact ascending.imp fun lt same => Nat.ne_of_lt lt (congrArg Prod.fst same)
  · intro x hx
    obtain ⟨t, ht, rfl⟩ := List.mem_map.1 hx
    obtain ⟨k, ht⟩ := mem_transactions_iff.1 ht
    obtain ⟨u, hu, order, packet⟩ := h.traced.opened ht
    exact List.mem_map.2 ⟨u, hu, Prod.ext order packet⟩

theorem Arises.isSound_of_mem {past : List (Session × Operation)} {s : Session}
    (h : Arises past s) {x : Session × Operation} (hx : x ∈ past) : x.1.IsSound := by
  induction h with
  | fresh => cases hx
  | step h op ih =>
    rcases List.mem_append.1 hx with hx | hx
    · exact ih hx
    · obtain rfl := List.mem_singleton.1 hx
      exact h.traced.sound
  | noted _ _ _ ih | popped _ ih => exact ih hx

def Accepts (s : Session) (op : Operation) (packet : Packet) : Prop :=
  ∃ now r s', op = .send now r ∧ r.Opens ∧ s.send now r = (s', .ok packet)

theorem opened_eq_singleton_iff {s : Session} (h : s.IsSound) {op : Operation} {packet : Packet} :
    (∃ t, s.opened op = [t] ∧ t.packet = packet) ↔ s.Accepts op packet := by
  constructor
  · rintro ⟨t, opened_eq, rfl⟩
    cases op with
    | send now r =>
      by_cases hr : r.Opens
      · rcases hs : s.send now r with ⟨s', e | sent⟩
        · simp [opened, hs] at opened_eq
        · obtain ⟨u, one, same⟩ := opened_of_opens hr hs
          cases opened_eq.symm.trans one
          exact ⟨now, r, s', rfl, hr, same ▸ hs⟩
      · cases opened_eq.symm.trans (opened_of_not_opens h hr now)
    | _ => cases opened_eq
  · rintro ⟨now, r, s', rfl, hr, sent⟩
    exact opened_of_opens hr sent

theorem order_le_of_confirms {s : Session} (h : s.IsSound) {op : Operation} {n : Nat}
    (confirms : s.Confirms op n) : n ≤ s.lastOrder := by
  obtain ⟨now, a, t, -, -, ht, rfl⟩ := confirms
  exact h.order_le ht

theorem phase_of_confirms {s : Session} (h : s.IsSound) {op : Operation} {k : UInt16}
    {u : Transaction} (hu : (s.step op).outgoing[k]? = some u)
    (hq : u.isPublish .exactlyOnce = true) (confirms : s.Confirms op u.order) :
    u.phase = .released := by
  obtain ⟨now, a, t, rfl, success, ht, order⟩ := confirms
  obtain ⟨new, -⟩ | ⟨v, hv, order', packet, -⟩ := (turn_of_step h _).origin hu
  · cases new
  · obtain rfl := h.order_inj ht hv (order.trans order'.symm)
    cases ht.symm.trans hv
    rw [← Transaction.isPublish_congr packet] at hq
    simp only [step, receive, receivePubRec, transaction?, ht, hq, success, if_true,
      Std.TreeMap.getElem?_insert_self] at hu
    cases hu
    rfl

/-- The session after a history knows which exactly-once messages the broker has taken. -/
structure Informed (past : List (Session × Operation)) (s : Session) : Prop where
  sound : s.IsSound
  order_le : ∀ x ∈ past, ∀ n, x.1.Confirms x.2 n → n ≤ s.lastOrder
  released : ∀ {k : UInt16} {t : Transaction}, s.outgoing[k]? = some t →
    t.isPublish .exactlyOnce = true → ∀ x ∈ past, x.1.Confirms x.2 t.order → t.phase = .released

namespace Informed

variable {past : List (Session × Operation)} {s : Session}

theorem step (h : Informed past s) (op : Operation) :
    Informed (past ++ [(s, op)]) (s.step op) := by
  have turn := turn_of_step h.sound op
  have old : ∀ x ∈ past ++ [(s, op)], ∀ n, x.1.Confirms x.2 n → n ≤ s.lastOrder := by
    intro x hx n confirms
    rcases List.mem_append.1 hx with hx | hx
    · exact h.order_le x hx n confirms
    · obtain rfl := List.mem_singleton.1 hx
      exact order_le_of_confirms h.sound confirms
  refine ⟨step_isSound h.sound op, fun x hx n confirms => ?_, fun {k u} hu hq x hx confirms => ?_⟩
  · have le := old x hx n confirms
    obtain ⟨-, same⟩ | ⟨t, -, -, next⟩ := turn.lastOrder <;> omega
  · have le := old x hx u.order confirms
    obtain ⟨new, -⟩ | ⟨t, ht, order, packet, phase | again⟩ := turn.origin hu
    · obtain ⟨-, order, -⟩ := turn.opened_cases new
      omega
    · rcases List.mem_append.1 hx with hx | hx
      · rw [← Transaction.isPublish_congr packet] at hq
        rw [← phase]
        exact h.released ht hq x hx (order ▸ confirms)
      · obtain rfl := List.mem_singleton.1 hx
        exact phase_of_confirms h.sound hu hq confirms
    · exact phase_of_confirms h.sound hu hq again

end Informed

theorem Arises.informed {past : List (Session × Operation)} {s : Session} (h : Arises past s) :
    Informed past s := by
  induction h with
  | fresh maxInflight => exact ⟨new_isSound maxInflight, by simp, by simp [new]⟩
  | step _ op ih => exact ih.step op
  | noted _ _ _ ih | popped _ ih => exact ⟨ih.sound.congr rfl rfl, ih.order_le, ih.released⟩

theorem transactions_replay (s : Session) (now : Time) :
    (s.replay now).1.transactions =
      s.transactions.map fun t => { t with retries := 0, lastSent := now } := by
  have values : (s.replay now).1.outgoing.values =
      s.outgoing.values.map fun t => { t with retries := 0, lastSent := now } := by
    simp only [replay, Listing.values_eq_map_toList, Std.TreeMap.toList_map, List.map_map]
    rfl
  rw [transactions, transactions, values]
  refine (List.map_mergeSort ?_).symm
  exact fun _ _ _ _ => rfl

theorem replay_replay (s : Session) (now later : Time) :
    ((s.replay now).1.replay later).2 = (s.replay now).2 := by
  rw [replay, transactions_replay, List.map_map]
  rfl

/-- The session after a history, seen by what a replay gives out and what it leaves. -/
structure Replays (past : List (Session × Operation)) (s : Session) (now : Time) : Prop where
  accepted : ∀ x ∈ past, ∀ packet,
    (∃ t, x.1.opened x.2 = [t] ∧ t.packet = packet) ↔ x.1.Accepts x.2 packet
  distinct : ((allOpened past).map (·.order)).Nodup
  /-- One packet goes out for each open transaction, in the order in which they were accepted. -/
  packets : ∃ pending : List Transaction, pending.Perm s.outgoing.values ∧
    (pending.map Transaction.accepted).Sublist ((allOpened past).map Transaction.accepted) ∧
    List.Forall₂ Transaction.Resumes pending (s.replay now).2
  /-- An exactly-once message is released once the broker has taken it. -/
  released : ∀ (k : UInt16) (t : Transaction), s.outgoing[k]? = some t →
    t.isPublish .exactlyOnce = true →
    (t.phase = .released ↔ ∃ x ∈ past, x.1.Confirms x.2 t.order)
  kept : ∀ k : UInt16, (s.replay now).1.outgoing[k]? =
    s.outgoing[k]?.map fun t => { t with retries := 0, lastSent := now }
  rest : (s.replay now).1 = { s with outgoing := (s.replay now).1.outgoing }
  again : ∀ later, ((s.replay now).1.replay later).2 = (s.replay now).2

theorem replays_of_arises {past : List (Session × Operation)} {s : Session}
    (arises : Arises past s) (now : Time) : Replays past s now := by
  have traced := arises.traced
  constructor
  case accepted =>
    intro x hx packet
    exact opened_eq_singleton_iff (arises.isSound_of_mem hx)
  case distinct => exact arises.ascending.1.imp Nat.ne_of_lt
  case packets =>
    refine ⟨s.transactions, List.mergeSort_perm _ _, arises.accepted_sublist, ?_⟩
    rw [replay, List.forall₂_map_right_iff, List.forall₂_same]
    intro t ht
    obtain ⟨k, ht⟩ := mem_transactions_iff.1 ht
    exact (traced.sound.fits ht).resumes
  case released =>
    intro k t ht hq
    constructor
    · exact traced.confirmed ht
    · rintro ⟨x, hx, confirms⟩
      exact arises.informed.released ht hq x hx confirms
  case kept => exact getElem?_replay s now
  case rest => rfl
  case again => exact replay_replay s now

theorem replays_interrupted :
    let s : Session := { (new 10).run interruptedOps with lastOutgoing := 5, maxInflight := 20 }
    Replays ((new 10).history interruptedOps) s 7 ∧ (s.replay 7).2 =
      [.pubRel { packetId := 1, reason := .success },
        .subscribe { packetId := 2, filters := [{ path := "b", qos := .atMostOnce }] },
        .publish
          { dup := true, qos := .atLeastOnce, topic := "c", packetId := 3, payload := [] }] := by
  intro s
  have arises := (arises_of_run 10 interruptedOps).noted 5 20
  have inOrder : s.transactions = s.outgoing.values :=
    List.mergeSort_of_pairwise (by decide +kernel)
  refine ⟨replays_of_arises arises 7, ?_⟩
  rw [replay, inOrder]
  decide +kernel

end Session

end MqttClient
