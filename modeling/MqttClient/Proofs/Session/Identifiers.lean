import Mathlib.Data.List.Perm.Subperm
import Mathlib.Logic.Function.Iterate
import MqttClient.Proofs.Session.Resending

/-! How a request gets its packet identifier. The identifiers stand in a circle, and the search goes
on from the one given last to the first that no open transaction has. Nothing counts its rounds: it
comes to an end because no open transaction has the identifier zero, so that as long as there are
fewer transactions than identifiers one of these is free. -/

namespace MqttClient

namespace Session

def circle : List Nat := List.range' 1 maxPacketIds

theorem length_circle : circle.length = maxPacketIds := List.length_range'

theorem mem_circle_iff {n : Nat} : n ∈ circle ↔ ∃ k : UInt16, k ≠ 0 ∧ k.toNat = n := by
  rw [circle, List.mem_range'_1, maxPacketIds]
  constructor
  · rintro ⟨pos, le⟩
    have same : (UInt16.ofNat n).toNat = n := UInt16.toNat_ofNat_of_lt' (by omega)
    refine ⟨UInt16.ofNat n, fun zero => ?_, same⟩
    rw [zero, UInt16.toNat_zero] at same
    omega
  · rintro ⟨k, ne, rfl⟩
    have pos : k.toNat ≠ 0 := fun zero => ne (UInt16.toNat_inj.1 zero)
    have lt := k.toNat_lt
    omega

theorem toNat_iterate_succId (last : UInt16) (n : Nat) :
    (succId^[n + 1] last).toNat = (last.toNat + n) % maxPacketIds + 1 := by
  induction n with
  | zero => exact toNat_succId last
  | succ n ih =>
    rw [Function.iterate_succ_apply', toNat_succId, ih, maxPacketIds]
    omega

theorem iterate_succId_inj {last : UInt16} {m n : Nat} (hm : m < maxPacketIds)
    (hn : n < maxPacketIds) (same : succId^[m + 1] last = succId^[n + 1] last) : m = n := by
  have same := congrArg UInt16.toNat same
  rw [toNat_iterate_succId, toNat_iterate_succId] at same
  unfold maxPacketIds at *
  omega

def used (s : Session) : List Nat := s.outgoing.keys.map UInt16.toNat

theorem nodup_used (s : Session) : s.used.Nodup :=
  Std.TreeMap.nodup_keys.map_on fun _ _ _ _ same => UInt16.toNat_inj.1 same

theorem length_used (s : Session) : s.used.length = s.inflight := by
  rw [used, List.length_map, Std.TreeMap.length_keys, inflight]

theorem mem_used_iff {s : Session} {k : UInt16} : k.toNat ∈ s.used ↔ s.outgoing[k]? ≠ none := by
  rw [used, List.mem_map_of_injective fun _ _ same => UInt16.toNat_inj.1 same,
    Std.TreeMap.mem_keys, ← Std.TreeMap.isSome_getElem?_iff_mem, Option.isSome_iff_ne_none]

theorem used_subset_circle {s : Session} (h : s.IsSound) : s.used ⊆ circle := by
  intro n hn
  obtain ⟨k, hk, rfl⟩ := List.mem_map.1 hn
  obtain ⟨t, ht⟩ := Option.ne_none_iff_exists'.1 (mem_used_iff.1 hn)
  exact mem_circle_iff.2 ⟨k, (h.fits ht).ne_zero, rfl⟩

theorem maxPacketIds_le_inflight_iff {s : Session} (h : s.IsSound) :
    maxPacketIds ≤ s.inflight ↔ ∀ k : UInt16, k ≠ 0 → s.outgoing[k]? ≠ none := by
  rw [← length_circle, ← length_used]
  constructor
  · intro enough k ne
    have perm := (s.nodup_used.subperm (used_subset_circle h)).perm_of_length_le enough
    exact mem_used_iff.1 (perm.mem_iff.2 (mem_circle_iff.2 ⟨k, ne, rfl⟩))
  · intro all
    have inUse : circle ⊆ s.used := by
      intro n hn
      obtain ⟨k, ne, rfl⟩ := mem_circle_iff.1 hn
      exact mem_used_iff.2 (all k ne)
    exact ((List.nodup_range' 1).subperm inUse).length_le

/-- The identifier in place `n` behind another is the first that is free. -/
structure IsFirstFree (s : Session) (last : UInt16) (n : Nat) : Prop where
  pos : 0 < n
  free : s.outgoing[succId^[n] last]? = none
  held : ∀ m, 0 < m → m < n → s.outgoing[succId^[m] last]? ≠ none

theorem isFirstFree_one {s : Session} {last : UInt16} (free : s.outgoing[succId last]? = none) :
    s.IsFirstFree last 1 := ⟨Nat.one_pos, free, by omega⟩

theorem IsFirstFree.eq_one {s : Session} {last : UInt16} {n : Nat} (h : s.IsFirstFree last n)
    (free : s.outgoing[succId last]? = none) : n = 1 := by
  by_contra ne
  have pos := h.pos
  exact h.held 1 Nat.one_pos (by omega) free

theorem isFirstFree_succ_iff {s : Session} {last : UInt16} {n : Nat}
    (held : s.outgoing[succId last]? ≠ none) :
    s.IsFirstFree last (n + 1) ↔ s.IsFirstFree (succId last) n := by
  constructor
  · intro h
    refine ⟨Nat.pos_of_ne_zero ?_, h.free, fun m pos lt => ?_⟩
    · rintro rfl
      exact held h.free
    · exact h.held (m + 1) (Nat.succ_pos m) (Nat.succ_lt_succ lt)
  · intro h
    refine ⟨Nat.succ_pos n, h.free, fun m pos lt => ?_⟩
    cases m with
    | zero => omega
    | succ m =>
      cases m with
      | zero => exact held
      | succ m => exact h.held (m + 1) (Nat.succ_pos m) (Nat.lt_of_succ_lt_succ lt)

theorem firstFree_eq_some_iff {s : Session} {fuel : Nat} {last k : UInt16} :
    s.firstFree fuel last = some k ↔ ∃ n ≤ fuel, s.IsFirstFree last n ∧ succId^[n] last = k := by
  induction fuel generalizing last with
  | zero =>
    constructor
    · exact nofun
    · rintro ⟨n, le, first, -⟩
      have pos := first.pos
      omega
  | succ fuel ih =>
    rw [firstFree, Std.TreeMap.contains_eq_isSome_getElem?]
    split
    · next held =>
      rw [Option.isSome_iff_ne_none] at held
      rw [ih]
      constructor
      · rintro ⟨n, le, first, rfl⟩
        exact ⟨n + 1, Nat.succ_le_succ le, (isFirstFree_succ_iff held).2 first, rfl⟩
      · rintro ⟨n, le, first, rfl⟩
        obtain ⟨n, rfl⟩ := Nat.exists_eq_succ_of_ne_zero (Nat.ne_of_gt first.pos)
        exact ⟨n, Nat.le_of_succ_le_succ le, (isFirstFree_succ_iff held).1 first, rfl⟩
    · next free =>
      rw [Option.not_isSome_iff_eq_none] at free
      constructor
      · intro h
        cases h
        exact ⟨1, Nat.succ_le_succ (Nat.zero_le fuel), isFirstFree_one free, rfl⟩
      · rintro ⟨n, -, first, rfl⟩
        rw [first.eq_one free]
        rfl

theorem IsFirstFree.le_inflight {s : Session} {last : UInt16} {n : Nat} (h : s.IsFirstFree last n)
    (le : n ≤ maxPacketIds) : n ≤ s.inflight + 1 := by
  -- The identifiers that are passed over are distinct, and all of them in use.
  let passed := (List.range (n - 1)).map fun m => (succId^[m + 1] last).toNat
  have nodup : passed.Nodup := by
    refine List.nodup_range.map_on fun i hi j hj same => ?_
    rw [List.mem_range] at hi hj
    exact iterate_succId_inj (by omega) (by omega) (UInt16.toNat_inj.1 same)
  have inUse : passed ⊆ s.used := by
    intro k hk
    obtain ⟨m, hm, rfl⟩ := List.mem_map.1 hk
    rw [List.mem_range] at hm
    exact mem_used_iff.2 (h.held (m + 1) (Nat.succ_pos m) (by omega))
  have few := (nodup.subperm inUse).length_le
  rw [List.length_map, List.length_range, length_used] at few
  omega

theorem nextPacketId_of_free {s : Session} (h : s.IsSound) {k : UInt16} (ne : k ≠ 0)
    (free : s.outgoing[k]? = none) :
    ∃ n ≤ maxPacketIds, s.IsFirstFree s.lastPacketId n ∧
      s.nextPacketId = .ok (succId^[n] s.lastPacketId) := by
  have room : ¬ maxPacketIds ≤ s.inflight := by
    rw [maxPacketIds_le_inflight_iff h]
    exact fun all => all k ne free
  have near : (k.toNat + 65534 - s.lastPacketId.toNat % 65535) % 65535 < maxPacketIds :=
    Nat.mod_lt _ (Nat.succ_pos _)
  obtain ⟨j, found⟩ := exists_firstFree free ne near
  obtain ⟨n, le, first, rfl⟩ := firstFree_eq_some_iff.1 found
  exact ⟨n, le, first, by rw [nextPacketId, if_neg room, found]⟩

theorem nextPacketId_eq_error_iff {s : Session} (h : s.IsSound) :
    s.nextPacketId = .error .packetIdsExhausted ↔
      ∀ k : UInt16, k ≠ 0 → s.outgoing[k]? ≠ none := by
  constructor
  · intro exhausted k ne free
    obtain ⟨n, -, -, given⟩ := nextPacketId_of_free h ne free
    rw [given] at exhausted
    cases exhausted
  · intro all
    rw [nextPacketId, if_pos ((maxPacketIds_le_inflight_iff h).2 all)]

def advance (s : Session) : Session := { s with lastPacketId := succId s.lastPacketId }

/-- The search round by round, with the session that it leaves. Only a free identifier ends it. -/
inductive Searches : Session → (rounds : Nat) → Session → Prop
  | found {s : Session} (free : s.outgoing[s.advance.lastPacketId]? = none) :
    Searches s 1 s.advance
  | onward {s s' : Session} {n : Nat} (held : s.outgoing[s.advance.lastPacketId]? ≠ none)
    (rest : Searches s.advance n s') : Searches s (n + 1) s'

theorem searches_iff {s s' : Session} {n : Nat} :
    s.Searches n s' ↔ s.IsFirstFree s.lastPacketId n ∧
      s' = { s with lastPacketId := succId^[n] s.lastPacketId } := by
  constructor
  · intro h
    induction h with
    | found free => exact ⟨isFirstFree_one free, rfl⟩
    | @onward s s' n held rest ih =>
      obtain ⟨first, rfl⟩ := ih
      exact ⟨(isFirstFree_succ_iff held).2 ⟨first.pos, first.free, first.held⟩, rfl⟩
  · rintro ⟨first, rfl⟩
    induction n generalizing s with
    | zero => exact absurd first.pos (Nat.lt_irrefl 0)
    | succ n ih =>
      by_cases free : s.outgoing[succId s.lastPacketId]? = none
      · obtain rfl : n = 0 := Nat.succ.inj (first.eq_one free)
        exact .found free
      · have next := (isFirstFree_succ_iff free).1 first
        exact .onward free (ih (s := s.advance) ⟨next.pos, next.free, next.held⟩)

theorem Receipt.lastPacketId_eq {now : Time} {s s' : Session} {events : List Event}
    (r : Receipt now s s' events) : s'.lastPacketId = s.lastPacketId := by
  cases r <;> rfl

theorem lastPacketId_send {s : Session} (h : s.IsSound) (now : Time) (r : Request) :
    (s.send now r).1.lastPacketId =
      ((s.opened (.send now r)).getLast?.map (·.packetId)).getD s.lastPacketId := by
  by_cases hr : r.Opens
  · rcases hs : s.send now r with ⟨s', e | packet⟩
    · simp [opened, hs, send_eq_error hs]
    · obtain ⟨k, phase, -, -, carries, rfl⟩ := send_of_opens hr hs
      simp [opened, hs, carries, transaction?, track]
  · obtain ⟨connection, awaitPingResp, same⟩ := s.send_of_not_opens hr now
    rw [opened_of_not_opens h hr, same]
    rfl

theorem lastPacketId_step {s : Session} (h : s.IsSound) (op : Operation) :
    (s.step op).lastPacketId =
      ((s.opened op).getLast?.map (·.packetId)).getD s.lastPacketId := by
  cases op with
  | send now r => exact lastPacketId_send h now r
  | receive now p =>
    obtain ⟨e, he⟩ | ⟨s', events, reply, hr, he⟩ := receive_cases h now p
    · rw [step, he]
      rfl
    · rw [step, he]
      exact hr.lastPacketId_eq
  | retransmit now k maxRetries =>
    obtain ⟨-, e⟩ | ⟨t, -, e | ⟨-, e⟩⟩ := s.retransmit_cases now k maxRetries
    all_goals
      rw [step, e]
      rfl
  | connecting =>
    simp only [step, connecting]
    split <;> rfl
  | replay | forget | clean | disconnecting | disconnected | takeEvents => rfl

theorem Arises.lastPacketId_eq {past : List (Session × Operation)} {s : Session}
    (h : Arises past s) :
    s.lastPacketId = ((allOpened past).getLast?.map (·.packetId)).getD 0 := by
  induction h with
  | fresh => rfl
  | @step past s h op ih =>
    rw [lastPacketId_step h.traced.sound op, ih, allOpened_concat,
      List.getLast?_append]
    cases (s.opened op).getLast? <;> rfl
  | noted _ _ _ ih | popped _ ih => exact ih

/-- The session after a history, seen by how it gives identifiers. They stand in a circle from 1 to
`maxPacketIds`, and back to 1. -/
structure GivesFirstFree (past : List (Session × Operation)) (s : Session) : Prop where
  /-- The search starts from the identifier of the transaction opened last, at first from zero. -/
  last : s.lastPacketId = ((allOpened past).getLast?.map (·.packetId)).getD 0
  exhausted : s.nextPacketId = .error .packetIdsExhausted ↔
    ∀ k : UInt16, k ≠ 0 → s.outgoing[k]? ≠ none
  found : (∃ k : UInt16, k ≠ 0 ∧ s.outgoing[k]? = none) →
    ∃ (n : Nat) (k : UInt16), n < maxPacketIds ∧ n ≤ s.inflight ∧
      s.Searches (n + 1) { s with lastPacketId := k } ∧ s.nextPacketId = .ok k ∧
      k.toNat = (s.lastPacketId.toNat + n) % maxPacketIds + 1 ∧ s.outgoing[k]? = none ∧
      ∀ m < n, ∀ j : UInt16, j.toNat = (s.lastPacketId.toNat + m) % maxPacketIds + 1 →
        s.outgoing[j]? ≠ none
  refused : ∀ now r e, r.Opens → s.connection = .connected → s.nextPacketId = .error e →
    s.send now r = (s, .error e)
  remembered : ∀ now r k, r.Opens → s.connection = .connected → s.nextPacketId = .ok k →
    ∃ s' packet, s.send now r = (s', .ok packet) ∧ Engine.packetIdOf packet = k ∧
      s'.lastPacketId = k

theorem gives_first_free_of_arises {past : List (Session × Operation)} {s : Session}
    (arises : Arises past s) : GivesFirstFree past s := by
  have h := arises.traced.sound
  constructor
  case last => exact arises.lastPacketId_eq
  case exhausted => exact nextPacketId_eq_error_iff h
  case found =>
    rintro ⟨k, ne, free⟩
    obtain ⟨n, le, first, given⟩ := nextPacketId_of_free h ne free
    obtain ⟨n, rfl⟩ := Nat.exists_eq_succ_of_ne_zero (Nat.ne_of_gt first.pos)
    refine ⟨n, _, le, Nat.le_of_succ_le_succ (first.le_inflight le),
      searches_iff.2 ⟨first, rfl⟩, given, toNat_iterate_succId _ n, first.free, ?_⟩
    intro m lt j place
    rw [← toNat_iterate_succId, UInt16.toNat_inj] at place
    rw [place]
    exact first.held (m + 1) (Nat.succ_pos m) (Nat.succ_lt_succ lt)
  case refused =>
    intro now r e hr hc none
    obtain ⟨phase, mk, -, -, sent⟩ := s.send_eq_start hr now
    rw [sent, start, if_pos hc, none]
  case remembered =>
    intro now r k hr hc given
    obtain ⟨phase, mk, -, carries, sent⟩ := s.send_eq_start hr now
    refine ⟨s.track now k (mk k) phase, mk k, ?_, carries k, rfl⟩
    rw [sent, start, if_pos hc, given]

theorem gives_first_free_interrupted :
    let s : Session := { (new 10).run interruptedOps with lastOutgoing := 5, maxInflight := 20 }
    GivesFirstFree ((new 10).history interruptedOps) s ∧ s.nextPacketId = .ok 4 := by
  intro s
  have arises := (arises_of_run 10 interruptedOps).noted 5 20
  exact ⟨gives_first_free_of_arises arises, by decide +kernel⟩

end Session

end MqttClient
