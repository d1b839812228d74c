import MqttClient.Engine.Request

/-! The table of open transactions. Each transaction is kept under its own identifier and holds a
packet that fits its phase; the numbers that order the transactions are distinct. Every operation of
a session keeps the table so, and a new transaction never takes the place of an open one. -/

namespace MqttClient

namespace Transaction

/-- The packet is of the kind that the phase speaks of, and carries the identifier. -/
def HoldsPacket (t : Transaction) : Prop :=
  match t.phase with
  | .sent =>
    ∃ p, t.packet = .publish p ∧ p.packetId = t.packetId ∧ p.qos ≠ .atMostOnce ∧ p.dup = false
  | .released =>
    ∃ p, t.packet = .publish p ∧ p.packetId = t.packetId ∧ p.qos = .exactlyOnce ∧ p.dup = false
  | .subscribing => ∃ p, t.packet = .subscribe p ∧ p.packetId = t.packetId
  | .unsubscribing => ∃ p, t.packet = .unsubscribe p ∧ p.packetId = t.packetId

structure Fits (t : Transaction) (packetId : UInt16) : Prop where
  packetId_eq : t.packetId = packetId
  ne_zero : packetId ≠ 0
  holdsPacket : t.HoldsPacket

theorem isPublish_iff {t : Transaction} {qos : QoS} :
    t.isPublish qos = true ↔ ∃ p, t.packet = .publish p ∧ p.qos = qos := by
  unfold isPublish
  split <;> simp_all

theorem isPublish_congr {t u : Transaction} (h : t.packet = u.packet) {qos : QoS} :
    t.isPublish qos = u.isPublish qos := by
  rw [isPublish, isPublish, h]

theorem Fits.release {t : Transaction} {packetId : UInt16} (h : t.Fits packetId)
    (hq : t.isPublish .exactlyOnce = true) (now : Time) :
    Fits { t with phase := .released, retries := 0, lastSent := now } packetId := by
  obtain ⟨p, hp, hpq⟩ := isPublish_iff.1 hq
  refine ⟨h.packetId_eq, h.ne_zero, p, hp, ?_⟩
  have held := h.holdsPacket
  unfold HoldsPacket at held
  split at held <;> simp_all

theorem Fits.touch {t : Transaction} {packetId : UInt16} (h : t.Fits packetId) (retries : Nat)
    (now : Time) : Fits { t with retries, lastSent := now } packetId :=
  ⟨h.packetId_eq, h.ne_zero, h.holdsPacket⟩

theorem Fits.phase_of_isPublish {t : Transaction} {packetId : UInt16} (h : t.Fits packetId)
    {qos : QoS} (hq : t.isPublish qos = true) : t.phase = .sent ∨ t.phase = .released := by
  obtain ⟨p, hp, -⟩ := isPublish_iff.1 hq
  have held := h.holdsPacket
  unfold HoldsPacket at held
  split at held <;> simp_all

theorem Fits.resend_cases {t : Transaction} {k : UInt16} (h : t.Fits k) :
    (∃ p, t.phase = .sent ∧ t.packet = .publish p ∧ p.packetId = k ∧ p.qos ≠ .atMostOnce ∧
      t.resend = .publish { p with dup := true }) ∨
    (∃ p, t.phase = .released ∧ t.packet = .publish p ∧ p.qos = .exactlyOnce ∧
      t.resend = .pubRel { packetId := k, reason := .success }) ∨
    (∃ p, t.phase = .subscribing ∧ t.packet = .subscribe p ∧ p.packetId = k ∧
      t.resend = .subscribe p) ∨
    ∃ p, t.phase = .unsubscribing ∧ t.packet = .unsubscribe p ∧ p.packetId = k ∧
      t.resend = .unsubscribe p := by
  have held := h.holdsPacket
  have hk := h.packetId_eq
  unfold HoldsPacket at held
  split at held
  · next phase =>
    obtain ⟨p, hp, hid, hq, -⟩ := held
    exact .inl ⟨p, phase, hp, hid.trans hk, hq, by simp [resend, hp, phase]⟩
  · next phase =>
    obtain ⟨p, hp, -, hq, -⟩ := held
    exact .inr (.inl ⟨p, phase, hp, hq, by simp [resend, phase, hk]⟩)
  · next phase =>
    obtain ⟨p, hp, hid⟩ := held
    exact .inr (.inr (.inl ⟨p, phase, hp, hid.trans hk, by simp [resend, hp, phase]⟩))
  · next phase =>
    obtain ⟨p, hp, hid⟩ := held
    exact .inr (.inr (.inr ⟨p, phase, hp, hid.trans hk, by simp [resend, hp, phase]⟩))

theorem Fits.packetIdOf_resend {t : Transaction} {k : UInt16} (ht : t.Fits k) :
    Engine.packetIdOf t.resend = k := by
  obtain ⟨p, -, -, hid, -, he⟩ | ⟨p, -, -, -, he⟩ | ⟨p, -, -, hid, he⟩ | ⟨p, -, -, hid, he⟩ :=
    ht.resend_cases
  all_goals rw [he]
  · exact hid
  · rfl
  · exact hid
  · exact hid

end Transaction

namespace Session

structure IsSound (s : Session) : Prop where
  fits : ∀ {k : UInt16} {t : Transaction}, s.outgoing[k]? = some t → t.Fits k
  order_le : ∀ {k : UInt16} {t : Transaction}, s.outgoing[k]? = some t → t.order ≤ s.lastOrder
  order_inj : ∀ {j k : UInt16} {t u : Transaction}, s.outgoing[j]? = some t →
    s.outgoing[k]? = some u → t.order = u.order → j = k

theorem outgoing_of_forget {s : Session} {j k : UInt16} {t : Transaction}
    (h : (s.forget k).outgoing[j]? = some t) : s.outgoing[j]? = some t := by
  simp only [Session.forget, Std.TreeMap.getElem?_erase] at h
  split at h
  · cases h
  · exact h

theorem packet_of_insert {s : Session} {j k : UInt16} {t u v : Transaction}
    (ht : s.outgoing[k]? = some t) (hv : (s.outgoing.insert k u)[j]? = some v)
    (same : u.packet = t.packet) : ∃ w, s.outgoing[j]? = some w ∧ v.packet = w.packet := by
  simp only [Std.TreeMap.getElem?_insert, Std.LawfulEqCmp.compare_eq_iff_eq] at hv
  split at hv
  · next here =>
    cases hv
    exact ⟨t, here ▸ ht, same⟩
  · exact ⟨v, hv, rfl⟩

theorem isSound_of_empty {s : Session} (h : ∀ k : UInt16, s.outgoing[k]? = none) : s.IsSound := by
  constructor <;> simp_all

namespace IsSound

variable {s : Session}

theorem getElem?_zero (h : s.IsSound) : s.outgoing[(0 : UInt16)]? = none :=
  Option.eq_none_iff_forall_not_mem.2 fun _ ht => (h.fits ht).ne_zero rfl

theorem congr (h : s.IsSound) {s' : Session} (ho : s'.outgoing = s.outgoing)
    (hl : s'.lastOrder = s.lastOrder) : s'.IsSound := by
  refine ⟨?_, ?_, ?_⟩
  all_goals rw [ho]
  · exact h.fits
  · rw [hl]
    exact h.order_le
  · exact h.order_inj

theorem forget (h : s.IsSound) (k : UInt16) : (s.forget k).IsSound := by
  exact ⟨fun ht => h.fits (outgoing_of_forget ht), fun ht => h.order_le (outgoing_of_forget ht),
    fun ht hu => h.order_inj (outgoing_of_forget ht) (outgoing_of_forget hu)⟩

theorem replace (h : s.IsSound) {k : UInt16} {t u : Transaction} (ht : s.outgoing[k]? = some t)
    (hu : u.Fits k) (ho : u.order = t.order) :
    ({ s with outgoing := s.outgoing.insert k u } : Session).IsSound := by
  have old : ∀ {j : UInt16} {v}, (s.outgoing.insert k u)[j]? = some v →
      ∃ w, s.outgoing[j]? = some w ∧ w.order = v.order ∧ (j ≠ k → w = v) := by
    intro j v hv
    simp only [Std.TreeMap.getElem?_insert, Std.LawfulEqCmp.compare_eq_iff_eq] at hv
    split at hv
    · next e =>
      cases e
      cases hv
      exact ⟨t, ht, ho.symm, fun ne => absurd rfl ne⟩
    · exact ⟨v, hv, rfl, fun _ => rfl⟩
  refine ⟨fun {j v} hv => ?_, fun {j v} hv => ?_, fun {i j v w} hv hw e => ?_⟩
  · by_cases e : j = k
    · subst e
      simp only [Std.TreeMap.getElem?_insert_self, Option.some.injEq] at hv
      exact hv ▸ hu
    · obtain ⟨w, hw, -, same⟩ := old hv
      exact same e ▸ h.fits hw
  · obtain ⟨w, hw, e, -⟩ := old hv
    exact e ▸ h.order_le hw
  · obtain ⟨v', hv', ev, -⟩ := old hv
    obtain ⟨w', hw', ew, -⟩ := old hw
    exact h.order_inj hv' hw' (by rw [ev, ew, e])

theorem track (h : s.IsSound) {now : Time} {k : UInt16} {packet : Packet} {phase : Phase}
    (hk : k ≠ 0)
    (hp : Transaction.HoldsPacket
      { packetId := k, packet, phase, lastSent := now, order := s.lastOrder + 1 }) :
    (s.track now k packet phase).IsSound := by
  have old : ∀ {j : UInt16} {v}, (s.track now k packet phase).outgoing[j]? = some v →
      (j = k ∧ v.Fits k ∧ v.order = s.lastOrder + 1) ∨ s.outgoing[j]? = some v := by
    intro j v hv
    simp only [Session.track, Std.TreeMap.getElem?_insert, Std.LawfulEqCmp.compare_eq_iff_eq] at hv
    split at hv
    · next e =>
      cases hv
      exact .inl ⟨e.symm, ⟨rfl, hk, hp⟩, rfl⟩
    · exact .inr hv
  refine ⟨fun {j v} hv => ?_, fun {j v} hv => ?_, fun {i j v w} hv hw e => ?_⟩
  · obtain ⟨rfl, fits, -⟩ | hv := old hv
    · exact fits
    · exact h.fits hv
  · change v.order ≤ s.lastOrder + 1
    obtain ⟨-, -, e⟩ | hv := old hv
    · omega
    · have := h.order_le hv
      omega
  · obtain ⟨ei, -, oi⟩ | hv := old hv <;> obtain ⟨ej, -, oj⟩ | hw := old hw
    · rw [ei, ej]
    · have := h.order_le hw
      omega
    · have := h.order_le hv
      omega
    · exact h.order_inj hv hw e

end IsSound

theorem succId_ne_zero (k : UInt16) : succId k ≠ 0 := by
  unfold succId
  intro h
  have := congrArg UInt16.toNat h
  rw [show max (k + 1) 1 = if k + 1 ≤ 1 then 1 else k + 1 from rfl] at this
  split at this
  · simp at this
  · next le =>
    simp only [UInt16.le_iff_toNat_le] at le
    simp_all

theorem firstFree_eq_some {s : Session} {fuel : Nat} {last k : UInt16}
    (h : s.firstFree fuel last = some k) : s.outgoing[k]? = none ∧ k ≠ 0 := by
  induction fuel generalizing last with
  | zero => simp [firstFree] at h
  | succ fuel ih =>
    rw [firstFree] at h
    split at h
    · exact ih h
    · next free =>
      cases h
      exact ⟨by simpa using free, succId_ne_zero last⟩

theorem nextPacketId_eq_ok {s : Session} {k : UInt16} (h : s.nextPacketId = .ok k) :
    s.outgoing[k]? = none ∧ k ≠ 0 := by
  unfold nextPacketId at h
  split at h
  · cases h
  · split at h
    · next free =>
      cases h
      exact firstFree_eq_some free
    · cases h

theorem toNat_succId (k : UInt16) : (succId k).toNat = k.toNat % 65535 + 1 := by
  have lt := k.toNat_lt
  have next : (k + 1).toNat = (k.toNat + 1) % 65536 := by simp
  rw [succId, show max (k + 1) 1 = if k + 1 ≤ 1 then 1 else k + 1 from rfl]
  split
  · next le =>
    rw [UInt16.le_iff_toNat_le, next, UInt16.toNat_one] at le
    rw [UInt16.toNat_one]
    omega
  · next lt' =>
    rw [UInt16.le_iff_toNat_le, next, UInt16.toNat_one] at lt'
    omega

theorem exists_firstFree {s : Session} {k : UInt16} (free : s.outgoing[k]? = none) (ne : k ≠ 0)
    {fuel : Nat} {last : UInt16}
    (near : (k.toNat + 65534 - last.toNat % 65535) % 65535 < fuel) :
    ∃ j, s.firstFree fuel last = some j := by
  induction fuel generalizing last with
  | zero => omega
  | succ fuel ih =>
    rw [firstFree]
    split
    · next held =>
      have other : (succId last).toNat ≠ k.toNat := by
        intro same
        rw [UInt16.toNat_inj.1 same, Std.TreeMap.contains_eq_isSome_getElem?, free] at held
        cases held
      have nonzero : k.toNat ≠ 0 := fun zero => ne (UInt16.toNat_inj.1 zero)
      have lt := k.toNat_lt
      rw [toNat_succId] at other
      refine ih ?_
      rw [toNat_succId]
      omega
    · exact ⟨_, rfl⟩

theorem exists_nextPacketId {s : Session} {k : UInt16} (room : s.isFull = false)
    (free : s.outgoing[k]? = none) (ne : k ≠ 0) : ∃ j, s.nextPacketId = .ok j := by
  have lt := s.maxInflight.toNat_lt
  have few : ¬ maxPacketIds ≤ s.inflight := by
    simp only [isFull, decide_eq_false_iff_not] at room
    rw [maxPacketIds]
    omega
  have near : (k.toNat + 65534 - s.lastPacketId.toNat % 65535) % 65535 < maxPacketIds :=
    Nat.mod_lt _ (Nat.succ_pos _)
  obtain ⟨j, found⟩ := exists_firstFree free ne near
  exact ⟨j, by rw [nextPacketId, if_neg few, found]⟩

theorem start_eq_ok {s s' : Session} {now : Time} {phase : Phase} {mk : UInt16 → Packet}
    {packet : Packet} (h : s.start now phase mk = (s', .ok packet)) :
    ∃ k, s.connection = .connected ∧ s.outgoing[k]? = none ∧ k ≠ 0 ∧ packet = mk k ∧
      s' = s.track now k (mk k) phase := by
  unfold start at h
  split at h
  · next hc =>
    split at h
    · next k hk =>
      cases h
      obtain ⟨free, ne⟩ := nextPacketId_eq_ok hk
      exact ⟨k, hc, free, ne, rfl, rfl⟩
    · cases h
  · cases h

theorem nextPacketId_eq_error {s : Session} {e : SessionError} (h : s.nextPacketId = .error e) :
    e = .packetIdsExhausted := by
  unfold nextPacketId at h
  split at h
  · cases h
    rfl
  · split at h <;> cases h
    rfl

theorem start_eq_error_of_connected {s s' : Session} {now : Time} {phase : Phase}
    {mk : UInt16 → Packet} {e : SessionError} (hc : s.connection = .connected)
    (h : s.start now phase mk = (s', .error e)) : s' = s ∧ e = .packetIdsExhausted := by
  unfold start at h
  rw [if_pos hc] at h
  split at h
  · cases h
  · next err he =>
    cases h
    exact ⟨rfl, nextPacketId_eq_error he⟩

theorem start_forms {s : Session} (hc : s.connection = .connected) (now : Time) (phase : Phase)
    (mk : UInt16 → Packet) :
    (∃ k, s.start now phase mk = (s.track now k (mk k) phase, .ok (mk k))) ∨
    s.start now phase mk = (s, .error .packetIdsExhausted) := by
  rcases hs : s.start now phase mk with ⟨s', err | packet⟩
  · obtain ⟨rfl, rfl⟩ := start_eq_error_of_connected hc hs
    exact .inr rfl
  · obtain ⟨k, -, -, -, rfl, rfl⟩ := start_eq_ok hs
    exact .inl ⟨k, rfl⟩

theorem sendPing_forms {s : Session} (hc : s.connection = .connected) :
    s.sendPing = (s, .error .awaitPingResp) ∨
    s.sendPing = ({ s with awaitPingResp := true }, .ok .pingReq) := by
  rw [sendPing, if_pos hc]
  split
  · exact .inl rfl
  · exact .inr rfl

theorem start_eq_error {s s' : Session} {now : Time} {phase : Phase} {mk : UInt16 → Packet}
    {e : SessionError} (h : s.start now phase mk = (s', .error e)) : s' = s ∧ e ≠ .wrongPacket := by
  unfold start at h
  split at h
  · split at h
    · cases h
    · next err he =>
      cases h
      exact ⟨rfl, nextPacketId_eq_error he ▸ nofun⟩
  · cases h
    exact ⟨rfl, nofun⟩

end Session

end MqttClient
