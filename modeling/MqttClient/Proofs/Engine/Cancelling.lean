import MqttClient.Proofs.Engine.Entries

/-! A caller that gives up a request. The request is forgotten wherever it is: its transaction is
ended, or it is taken out of the backlog, and nothing of it goes out again. All that belongs to
other calls stays as it is. Only the identifier that the transaction held may be used by the next
call of the backlog, which is then sent at once. -/

namespace MqttClient

namespace Call

def request (packetId : UInt16) : Call → Packet
  | publish _ p => .publish { p with packetId, dup := false }
  | subscribe _ p _ => .subscribe { p with packetId }
  | unsubscribe _ p => .unsubscribe { p with packetId }

def phase : Call → Phase
  | publish .. => .sent
  | subscribe .. => .subscribing
  | unsubscribe .. => .unsubscribing

end Call

namespace Engine

variable {past past' : List Command} {e d f m : Engine} {c : Command} {call : Call} {id : CallId}
  {k : UInt16} {link : Link}

structure Absent (e : Engine) (id : CallId) : Prop where
  waits : ¬ e.Waits id
  backlog : ∀ call ∈ e.backlog, call.id ≠ id

def Ignores (id : CallId) (e d : Engine) : Prop :=
  e.Absent id → d.Absent id ∧ ∃ out, d.requests = e.requests ++ out ∧
    ∀ packet, (some id, packet) ∉ out

theorem Ignores.refl (id : CallId) (e : Engine) : Ignores id e e := fun absent =>
  ⟨absent, [], (List.append_nil _).symm, fun _ => List.not_mem_nil⟩

theorem Ignores.trans (h : Ignores id e d) (h' : Ignores id d f) : Ignores id e f := by
  intro absent
  obtain ⟨absent, out, he, silent⟩ := h absent
  obtain ⟨absent, out', he', silent'⟩ := h' absent
  refine ⟨absent, out ++ out', by rw [he', he, List.append_assoc], fun packet hm => ?_⟩
  exact (List.mem_append.1 hm).elim (silent packet) (silent' packet)

theorem Wanes.ignores (h : Wanes e d) (id : CallId) : Ignores id e d := by
  intro absent
  obtain ⟨out, he, repeats⟩ := h.requests
  refine ⟨⟨absent.waits ∘ h.waits, fun call hc => absent.backlog call (h.backlog.mem hc)⟩, out, he,
    fun packet hm => absent.waits (repeats _ hm).waits⟩

theorem Admits.ignores {asks : Option Call} (h : Admits asks e d)
    (other : ∀ call, asks = some call → call.id ≠ id) : Ignores id e d := by
  intro absent
  obtain ⟨out, he, known⟩ := h.requests
  refine ⟨⟨fun waits => ?_, fun call hc => absent.backlog call (h.backlog.mem hc)⟩, out, he,
    fun packet hm => ?_⟩
  · obtain old | ⟨call, asked, same⟩ := h.waits waits
    · exact absent.waits old
    · exact other call asked same
  · obtain old | ⟨same, -⟩ := known _ hm
    · exact absent.waits old.waits
    · obtain ⟨call, asked, named⟩ := Option.map_eq_some_iff.1 same.symm
      exact other call asked named

theorem ignores_drainBacklog (e : Engine) (id : CallId) : Ignores id e e.drainBacklog := by
  intro absent
  refine drainLoop_induction (motive := fun d => d.Absent id ∧ ∃ out,
    d.requests = e.requests ++ out ∧ ∀ packet, (some id, packet) ∉ out) e.backlog.length
    (Ignores.refl id e absent) fun d call rest here _ _ waiting => ?_
  have popped : Wanes d { d with backlog := rest } :=
    { Wanes.refl d with backlog := waiting ▸ List.sublist_cons_self call rest }
  have sent : Ignores id { d with backlog := rest } (({ d with backlog := rest } : Engine).sendCall
      call) := by
    obtain rests | ⟨-, grows⟩ := ({ d with backlog := rest } : Engine).sendCall_cases call
    · exact rests.toWanes.ignores id
    · refine grows.toAdmits.ignores fun _ same => ?_
      cases same
      exact here.1.backlog call (waiting ▸ List.mem_cons_self)
  have before : Ignores id e d := fun _ => here
  exact (before.trans ((popped.ignores id).trans sent)) absent

theorem ignores_request (e : Engine) (call : Call) (other : call.id ≠ id) :
    Ignores id e (e.request call false) := by
  obtain rests | ⟨-, -, -, grows⟩ | ⟨-, -, held⟩ := e.request_cases call
  · exact rests.toWanes.ignores id
  · refine grows.toAdmits.ignores fun _ same => ?_
    cases same
    exact other
  · rw [held]
    intro absent
    refine ⟨⟨absent.waits, fun c hc => ?_⟩, [], (List.append_nil _).symm, fun _ => List.not_mem_nil⟩
    obtain hc | hc := List.mem_append.1 hc
    · exact absent.backlog c hc
    · rwa [List.mem_singleton.1 hc]

theorem Course.ignores (h : Course e c d) (other : c.call? ≠ some id) : Ignores id e d := by
  cases h with
  | rests rests => exact rests.toWanes.ignores id
  | @drained m _ recedes rests =>
    exact (recedes.toWanes.ignores id).trans
      ((m.ignores_drainBacklog id).trans (rests.toWanes.ignores id))
  | @requested call hc =>
    subst hc
    exact e.ignores_request call fun same => other (congrArg some same)
  | attempted attempts => exact attempts.toWanes.ignores id
  | greeted _ _ _ _ opens _ rests =>
    exact (opens.toWanes.ignores id).trans (rests.toWanes.ignores id)
  | @resumed _ _ m _ _ _ _ opens _ rests =>
    have renewed : Ignores id m m.resubscribe := by
      obtain rests | ⟨-, grows⟩ := m.resubscribe_cases
      · exact rests.toWanes.ignores id
      · exact grows.toAdmits.ignores nofun
    exact (opens.toWanes.ignores id).trans
      (renewed.trans ((ignores_drainBacklog _ id).trans (rests.toWanes.ignores id)))

/-- However a run goes on, the call is not taken up again, and its request does not go out. -/
def Drops (id : CallId) (past : List Command) (e : Engine) : Prop :=
  ∀ past' d, Leads past e past' d → d.Absent id ∧ ∃ out, d.requests = e.requests ++ out ∧
    ∀ packet, (some id, packet) ∉ out

theorem Absent.drops (h : e.Absent id) (run : Reachable past e)
    (made : ∃ c ∈ past, c.call? = some id) : Drops id past e := by
  obtain ⟨c₀, taken, hid⟩ := made
  intro past' d leads
  have known : c₀ ∈ past' ∧ Ignores id e d := by
    induction leads with
    | refl => exact ⟨taken, .refl id e⟩
    | @handle past' d c leads possible ih =>
      have course := (leads.reachable run).accounted.settled.course c
      have other : c.call? ≠ some id := fun same => possible.fresh id same c₀ ih.1 hid
      exact ⟨List.mem_append_left _ ih.1, ih.2.trans (course.ignores other)⟩
    | drift _ drifts ih => exact ⟨ih.1, ih.2.trans (drifts.rests.toWanes.ignores id)⟩
  exact known.2 h

/-- Whatever is held back opens a transaction once it is sent. -/
def AllAcknowledged (e : Engine) : Prop := ∀ call ∈ e.backlog, call.isUnacknowledged = false

theorem allAcknowledged_request (h : e.AllAcknowledged) (call : Call) :
    (e.request call false).AllAcknowledged := by
  have held (acked : call.isUnacknowledged = false) :
      ({ e with backlog := e.backlog ++ [call] } : Engine).AllAcknowledged := by
    intro c hc
    obtain hc | hc := List.mem_append.1 hc
    · exact h c hc
    · rwa [List.mem_singleton.1 hc]
  have sent : (e.sendCall call).AllAcknowledged := by
    obtain rests | ⟨-, grows⟩ := e.sendCall_cases call
    · exact fun c hc => h c (rests.backlog.mem hc)
    · exact fun c hc => h c (grows.backlog.mem hc)
  unfold Engine.request
  split
  · split
    · next full =>
      simp only [Bool.and_eq_true, Bool.not_eq_true'] at full
      exact held full.1
    · exact sent
  · split
    · next planned =>
      simp only [Bool.and_eq_true, Bool.not_eq_true'] at planned
      exact held planned.2
    · exact h

theorem backlog_drainBacklog (e : Engine) : e.drainBacklog.backlog.Sublist e.backlog := by
  refine drainLoop_induction (motive := fun d => d.backlog.Sublist e.backlog) e.backlog.length
    (.refl _) fun d call rest le _ _ waiting => ?_
  have popped : rest.Sublist e.backlog :=
    (waiting ▸ List.sublist_cons_self call rest : rest.Sublist d.backlog).trans le
  obtain rests | ⟨-, grows⟩ := ({ d with backlog := rest } : Engine).sendCall_cases call
  · exact rests.backlog.trans popped
  · exact grows.backlog.trans popped

theorem Course.backlog_cases (h : Course e c d) :
    d.backlog.Sublist e.backlog ∨ ∃ call, c = .call call ∧ d = e.request call false := by
  cases h with
  | rests rests => exact .inl rests.backlog
  | @drained m _ recedes rests =>
    exact .inl (rests.backlog.trans (m.backlog_drainBacklog.trans recedes.backlog))
  | @requested call hc => exact .inr ⟨call, hc, rfl⟩
  | attempted attempts => exact .inl attempts.backlog
  | greeted _ _ _ _ opens _ rests => exact .inl (rests.backlog.trans opens.backlog)
  | @resumed _ _ m _ _ _ _ opens _ rests =>
    have renewed : m.resubscribe.backlog.Sublist m.backlog := by
      obtain rests | ⟨-, grows⟩ := m.resubscribe_cases
      · exact rests.backlog
      · exact grows.backlog
    exact .inl (rests.backlog.trans ((backlog_drainBacklog _).trans (renewed.trans opens.backlog)))

theorem Reachable.allAcknowledged (h : Reachable past e) : e.AllAcknowledged := by
  induction h using Reachable.course_induction with
  | start => exact List.forall_mem_nil _
  | handle _ _ course ih =>
    obtain fewer | ⟨call, -, same⟩ := course.backlog_cases
    · exact fun c hc => ih c (fewer.mem hc)
    · rw [same]
      exact allAcknowledged_request ih call
  | drift _ drifts ih => exact fun c hc => ih c (drifts.rests.backlog.mem hc)

def sentCall (e : Engine) (call : Call) (k : UInt16) (link : Link) (bytes : Bytes) : Engine :=
  let sent : Engine := { e with
    session := { e.session.track e.now k (call.request k) call.phase with lastOutgoing := e.now }
    subscriptions := call.enter e.subscriptions
    pending := e.pending.insert k call.pending
    link := some { link with room := link.room.map (· - 1) }
    effects := e.effects ++ [.write (some call.id) (call.request k) bytes] }
  sent.schedule (.ack k) e.ackTimeout

theorem sendCall_eq (connected : e.session.connection = .connected)
    (acked : call.isUnacknowledged = false) (next : e.session.nextPacketId = .ok k) :
    e.sendCall call =
      ({ e with subscriptions := call.enter e.subscriptions }.withSession
        (e.session.track e.now k (call.request k) call.phase)).transmit k (call.request k)
        call.pending := by
  cases call with
  | publish id p =>
    have hq : p.qos ≠ .atMostOnce := by simpa [Call.isUnacknowledged] using acked
    simp only [sendCall, Session.send, Session.sendPublish, Session.start, if_neg hq,
      if_pos connected, next]
    rfl
  | subscribe id p handler =>
    simp only [sendCall, Session.send, Session.start, if_pos connected, next]
    rfl
  | unsubscribe id p =>
    simp only [sendCall, Session.send, Session.start, Engine.unsubscribeAll, if_pos connected, next]
    rfl

theorem sendCall_of_takes (connected : e.session.connection = .connected)
    (acked : call.isUnacknowledged = false) (next : e.session.nextPacketId = .ok k)
    (linked : e.link = some link) (takes : link.Takes (call.request k))
    (room : link.room ≠ some 0) : ∃ bytes, e.sendCall call = e.sentCall call k link bytes := by
  let opened := { e with subscriptions := call.enter e.subscriptions }.withSession
    (e.session.track e.now k (call.request k) call.phase)
  let waiting : Engine := { opened with pending := opened.pending.insert k call.pending }
  have asked : waiting.requester (call.request k) = some call.id := by
    cases call with
    | publish id p =>
      have hq : p.qos ≠ .atMostOnce := by simpa [Call.isUnacknowledged] using acked
      simp [requester, Call.request, hq, waiting, Call.pending, Pending.call?, Call.id]
    | subscribe | unsubscribe =>
      simp [requester, Call.request, waiting, Call.pending, Pending.call?, Call.id]
  rw [sendCall_eq connected acked next]
  obtain ⟨link', bytes, linked', -, -, he⟩ | ⟨link', err, linked', refuses, -⟩ | ⟨stuck, -⟩ :=
    waiting.write_cases (call.request k)
  · cases linked.symm.trans linked'
    rw [transmit_of_ok (e := opened) he, asked]
    exact ⟨bytes, rfl⟩
  · cases linked.symm.trans linked'
    exact absurd takes refuses
  · exact absurd (stuck link linked).2 room

/-- The connection takes the call that is held back longest, if it is its turn. -/
def TakesNext (e : Engine) : Prop :=
  ∀ call rest k link, e.session.connection = .connected → e.session.isFull = false →
    e.backlog = call :: rest → e.session.nextPacketId = .ok k → e.link = some link →
    link.Takes (call.request k) ∧ link.room ≠ some 0

inductive LetsThrough (e : Engine) : Engine → Prop
  | nothing (idle : e.session.connection = .connected →
      e.session.isFull = true ∨ e.backlog = []) : LetsThrough e e
  | next {call : Call} {rest : List Call} {k : UInt16} {link : Link} {bytes : Bytes}
    (waiting : e.backlog = call :: rest) (free : e.session.outgoing[k]? = none)
    (linked : e.link = some link) (acked : call.isUnacknowledged = false) :
    LetsThrough e (({ e with backlog := rest } : Engine).sentCall call k link bytes)

theorem drainLoop_of_idle (idle : e.session.connection = .connected →
    e.session.isFull = true ∨ e.backlog = []) (fuel : Nat) : drainLoop fuel e = e := by
  cases fuel with
  | zero => rfl
  | succ fuel =>
    rw [drainLoop]
    split
    · next room =>
      simp only [Bool.and_eq_true, Bool.not_eq_true', isConnected, beq_iff_eq] at room
      rw [(idle room.1).resolve_left (by simp [room.2])]
    · rfl

theorem inflight_track {s : Session} (free : s.outgoing[k]? = none) (now : Time) (packet : Packet)
    (phase : Phase) : (s.track now k packet phase).inflight = s.inflight + 1 := by
  have vacant : k ∉ s.outgoing := by simp [Std.TreeMap.mem_iff_isSome_getElem?, free]
  simp [Session.inflight, Session.track, Std.TreeMap.size_insert, vacant]

theorem letsThrough_drainBacklog (acked : e.AllAcknowledged)
    (linked : e.session.connection = .connected → e.link.isSome)
    (one : e.session.connection = .connected → e.backlog ≠ [] →
      e.session.maxInflight.toNat ≤ e.session.inflight + 1)
    (free : e.session.outgoing[k]? = none) (ne : k ≠ 0) (takes : e.TakesNext) :
    LetsThrough e e.drainBacklog := by
  by_cases idle : e.session.connection = .connected → e.session.isFull = true ∨ e.backlog = []
  · rw [drainBacklog, drainLoop_of_idle idle]
    exact .nothing idle
  · simp only [Classical.not_imp, not_or, Bool.not_eq_true] at idle
    obtain ⟨connected, room, held⟩ := idle
    obtain ⟨call, rest, waiting⟩ := List.exists_cons_of_ne_nil held
    obtain ⟨j, next⟩ := Session.exists_nextPacketId room free ne
    obtain ⟨link, hl⟩ := Option.isSome_iff_exists.1 (linked connected)
    obtain ⟨takes, through⟩ := takes call rest j link connected room waiting next hl
    have known := acked call (waiting ▸ List.mem_cons_self)
    have vacant := (Session.nextPacketId_eq_ok next).1
    let popped : Engine := { e with backlog := rest }
    obtain ⟨bytes, sent⟩ := sendCall_of_takes (e := popped) connected known next hl takes through
    have full : (popped.sentCall call j link bytes).session.isFull = true := by
      have size := inflight_track vacant e.now (call.request j) call.phase
      change decide (e.session.maxInflight.toNat ≤
        (e.session.track e.now j (call.request j) call.phase).inflight) = true
      rw [size]
      exact decide_eq_true (one connected held)
    have drained : e.drainBacklog = popped.sentCall call j link bytes := by
      rw [drainBacklog, waiting, List.length_cons, drainLoop,
        if_pos (by simp [isConnected, connected, room]), waiting]
      change drainLoop rest.length (popped.request call true) = _
      rw [request_queued (e := popped) connected room, sent, drainLoop_of_idle fun _ => .inl full]
    rw [drained]
    exact .next waiting vacant hl known

def withdrawn (e : Engine) (k : UInt16) : Engine :=
  ((e.erasePending k).forget k).cancelTimer (.ack k)

theorem absent_of_held (h : e.held id = 0) : e.Absent id := by
  unfold held at h
  have pending : e.pending.toList.countP (·.2.call? == some id) = 0 := by omega
  have backlog : e.backlog.countP (·.id == id) = 0 := by omega
  rw [List.countP_eq_zero] at pending backlog
  refine ⟨?_, fun call hc => by simpa using backlog call hc⟩
  rintro ⟨k, p, hp, hid⟩
  have unnamed := pending (k, p) (Std.TreeMap.mem_toList_iff_getElem?_eq_some.2 hp)
  exact unnamed (by simp [hid])

theorem Reachable.absent_withdrawn (h : Reachable past e) {p : Pending}
    (hp : e.pending[k]? = some p) (hid : p.call? = some id) : (e.withdrawn k).Absent id := by
  have once := h.accounted.account_le id
  rw [← account_erase hp, hid, take, if_pos rfl] at once
  -- the call waits in one place, which is the one that is cleared
  refine absent_of_held ?_
  change (e.erasePending k).held id = 0
  unfold account at once
  omega

theorem find?_of_not_waits (h : ¬ e.Waits id) :
    (e.pending.toList.find? fun (_, p) => p.call? == some id) = none := by
  refine List.find?_eq_none.2 fun ⟨k, p⟩ hm named => h ⟨k, p, ?_, by simpa using named⟩
  exact Std.TreeMap.mem_toList_iff_getElem?_eq_some.1 hm

theorem cancelCall_of_waits (h : Reachable past e) {p : Pending} (hp : e.pending[k]? = some p)
    (hid : p.call? = some id) : e.cancelCall id = (e.withdrawn k).drainBacklog := by
  have alone := (h.absent_withdrawn hp hid).waits
  rw [cancelCall]
  split
  · next j q found =>
    have named : q.call? = some id := by simpa using List.find?_some found
    have waits : e.pending[j]? = some q :=
      Std.TreeMap.mem_toList_iff_getElem?_eq_some.1 (List.mem_of_find?_eq_some found)
    have same : j = k := by
      refine Classical.byContradiction fun other => alone ⟨j, q, ?_, named⟩
      have ne : k ≠ j := Ne.symm other
      simpa [withdrawn, Engine.erasePending, Engine.forget, withSession, Engine.cancelTimer,
        Std.TreeMap.getElem?_erase, ne] using waits
    rw [same]
    rfl
  · next missing =>
    have unnamed := List.find?_eq_none.1 missing (k, p)
      (Std.TreeMap.mem_toList_iff_getElem?_eq_some.2 hp)
    exact absurd (by simp [hid]) unnamed

theorem cancelCall_of_held (h : Reachable past e) {pre post : List Call}
    (held : e.backlog = pre ++ call :: post) :
    e.cancelCall call.id = { e with backlog := pre ++ post } := by
  have once := h.accounted.account_le call.id
  simp only [account, Engine.held, held, List.countP_append, List.countP_cons, beq_self_eq_true,
    if_true] at once
  have unheld : ∀ l : List Call, l.countP (·.id == call.id) = 0 →
      l.filter (·.id != call.id) = l := by
    intro l none
    rw [List.countP_eq_zero] at none
    exact List.filter_eq_self.2 fun c hc => by simpa using none c hc
  have waiting : ¬ e.Waits call.id := by
    rintro ⟨k, p, hp, hid⟩
    have some : 0 < e.pending.toList.countP (·.2.call? == some call.id) :=
      List.countP_pos_iff.2
        ⟨(k, p), Std.TreeMap.mem_toList_iff_getElem?_eq_some.2 hp, by simp [hid]⟩
    omega
  have itself : [call].filter (·.id != call.id) = [] := by simp
  rw [cancelCall, find?_of_not_waits waiting, held, List.append_cons, List.filter_append,
    List.filter_append, itself, unheld pre (by omega), unheld post (by omega), List.append_nil]

theorem Absent.cancelCall (h : e.Absent id) : e.cancelCall id = e := by
  have same : e.backlog.filter (·.id != id) = e.backlog :=
    List.filter_eq_self.2 fun call hc => by simpa using h.backlog call hc
  rw [Engine.cancelCall, find?_of_not_waits h.waits, same]

theorem Reachable.letsThrough_withdrawn (h : Reachable past e) {p : Pending}
    (hp : e.pending[k]? = some p) (takes : (e.withdrawn k).TakesNext) :
    LetsThrough (e.withdrawn k) (e.withdrawn k).drainBacklog := by
  have settled := h.accounted.settled
  obtain ⟨t, ht⟩ : ∃ t, e.session.outgoing[k]? = some t := by
    refine Option.ne_none_iff_exists'.1 fun none => ?_
    cases hp.symm.trans ((settled.ledger.agrees k).eq_none_iff.2 none)
  have held : e.session.outgoing.contains k = true := by
    rw [Std.TreeMap.contains_eq_isSome_getElem?, ht, Option.isSome_some]
  have gone : (e.withdrawn k).session.outgoing[k]? = none := Std.TreeMap.getElem?_erase_self
  refine letsThrough_drainBacklog h.allAcknowledged settled.posture.link_isSome ?_ gone
    (settled.ledger.sound.fits ht).ne_zero takes
  intro connected waiting
  -- something is held back, so that no slot was free before
  have full : e.session.maxInflight.toNat ≤ e.session.inflight := by
    simpa [Session.isFull] using (h.tight.full connected).resolve_right waiting
  have size : (e.withdrawn k).session.inflight = e.session.inflight - 1 := by
    change (e.session.outgoing.erase k).size = e.session.outgoing.size - 1
    rw [Std.TreeMap.size_erase, if_pos held]
  change e.session.maxInflight.toNat ≤ _
  omega

/-- A transaction is given up, and what belongs to other calls stays as it is, but for those which
are sent in its place. -/
structure Vacates (k : UInt16) (sent : List Call) (e d : Engine) : Prop where
  length_le : sent.length ≤ 1
  backlog_eq : e.backlog = sent ++ d.backlog
  waits : ∀ call ∈ sent, d.Waits call.id
  subscriptions_eq : d.subscriptions = sent.foldl (fun t call => call.enter t) e.subscriptions
  pending : ∀ {j : UInt16} {p : Pending}, j ≠ k → e.pending[j]? = some p → d.pending[j]? = some p
  outgoing : ∀ {j : UInt16} {t : Transaction}, j ≠ k → e.session.outgoing[j]? = some t →
    d.session.outgoing[j]? = some t
  timers : ∀ {timer : Timer} {a : Armed}, timer ≠ .ack k → e.timers.get? timer = some a →
    d.timers.get? timer = some a
  effects : ∃ out, d.effects = e.effects ++ out ∧ out.length = sent.length ∧
    ∀ x ∈ out, ∃ call ∈ sent, ∃ j bytes, x = .write (some call.id) (call.request j) bytes

theorem LetsThrough.vacates (h : LetsThrough (e.withdrawn k) d) {w : World}
    {owed : CallId → Nat} (settled : Settled w owed e) :
    ∃ sent, Vacates k sent e d := by
  have pending : ∀ {j : UInt16}, j ≠ k → (e.withdrawn k).pending[j]? = e.pending[j]? := by
    intro j ne
    have ne : k ≠ j := ne.symm
    simp [withdrawn, Engine.erasePending, Engine.forget, withSession, Engine.cancelTimer,
      Std.TreeMap.getElem?_erase, ne]
  have outgoing : ∀ {j : UInt16}, j ≠ k →
      (e.withdrawn k).session.outgoing[j]? = e.session.outgoing[j]? := by
    intro j ne
    have ne : k ≠ j := ne.symm
    simp [withdrawn, Engine.erasePending, Engine.forget, withSession, Engine.cancelTimer,
      Session.forget, Std.TreeMap.getElem?_erase, ne]
  have timers : ∀ {timer : Timer}, timer ≠ .ack k →
      (e.withdrawn k).timers.get? timer = e.timers.get? timer :=
    fun ne => Timers.get?_erase_of_ne _ ne
  cases h with
  | nothing =>
    refine ⟨[], Nat.zero_le _, rfl, List.forall_mem_nil _, rfl, fun ne hp => ?_, fun ne ht => ?_,
      fun ne ha => ?_, [], (List.append_nil _).symm, rfl, List.forall_mem_nil _⟩
    · rw [pending ne, hp]
    · rw [outgoing ne, ht]
    · rw [timers ne, ha]
  | @next call rest i link bytes waiting free linked acked =>
    have vacant : ∀ {j : UInt16}, j ≠ k → e.session.outgoing[j]? ≠ none → j ≠ i := by
      rintro j ne held rfl
      exact held ((outgoing ne).symm.trans free)
    refine ⟨[call], Nat.le_refl _, waiting, List.forall_mem_singleton.2 ?_, rfl,
      fun {j p} ne hp => ?_, fun {j t} ne ht => ?_, fun {timer a} ne ha => ?_, _, rfl, rfl, ?_⟩
    · exact ⟨i, call.pending, Std.TreeMap.getElem?_insert_self, call?_pending call⟩
    · have other := vacant ne fun none => by
        cases hp.symm.trans ((settled.ledger.agrees j).eq_none_iff.2 none)
      change ((e.withdrawn k).pending.insert i call.pending)[j]? = some p
      simpa [Std.TreeMap.getElem?_insert, other.symm] using (pending ne).trans hp
    · have other := vacant ne fun none => by cases ht.symm.trans none
      change ((e.withdrawn k).session.outgoing.insert i _)[j]? = some t
      simpa [Std.TreeMap.getElem?_insert, other.symm] using (outgoing ne).trans ht
    · have other : timer ≠ .ack i := by
        rintro rfl
        have held := ((settled.timers (.ack i) id).1 (ha ▸ rfl)).2
        exact vacant (fun same => ne (congrArg Timer.ack same)) held rfl
      exact (Timers.get?_set_of_ne _ _ other).trans ((timers ne).trans ha)
    · exact List.forall_mem_singleton.2 ⟨call, List.mem_cons_self, i, bytes, rfl⟩

/-- Giving up a request touches nothing but that request. A transaction is ended for good, and at
most one call is sent in its place, which enters its subscriptions into the table as ever; a call
that was held back is taken out of the backlog; and nothing happens for a call that is unknown or
done with. -/
theorem cancel_spares {past : List Command} {e : Engine} (h : Reachable past e) (id : CallId)
    (takes : ∀ (k : UInt16) p, e.pending[k]? = some p → p.call? = some id →
      (e.withdrawn k).TakesNext) :
    let d := e.handle (.cancel id)
    (∀ (k : UInt16) p, e.pending[k]? = some p → p.call? = some id →
      LetsThrough (e.withdrawn k) d ∧ (∃ sent, Vacates k sent e d) ∧
        Drops id (past ++ [.cancel id]) d) ∧
    (∀ pre call post, e.backlog = pre ++ call :: post → call.id = id →
      d = { e with backlog := pre ++ post }) ∧
    (¬ e.Waits id → (∀ call ∈ e.backlog, call.id ≠ id) → d = e) := by
  intro d
  refine ⟨fun k p hp hid => ?_, ?_, fun waits held => Absent.cancelCall ⟨waits, held⟩⟩
  · have same : d = (e.withdrawn k).drainBacklog := cancelCall_of_waits h hp hid
    have reached : Reachable (past ++ [.cancel id]) d := h.handle ⟨nofun, nofun, nofun⟩
    have lets : LetsThrough (e.withdrawn k) d :=
      same ▸ h.letsThrough_withdrawn hp (takes k p hp hid)
    have absent : d.Absent id := by
      rw [same]
      exact ((e.withdrawn k).ignores_drainBacklog id (h.absent_withdrawn hp hid)).1
    refine ⟨lets, lets.vacates h.accounted.settled, absent.drops reached ?_⟩
    obtain ⟨call, made, rfl⟩ | ⟨paths, rfl⟩ := h.known.pending hp
    · rw [call?_pending] at hid
      exact ⟨.call call, List.mem_append_left _ made, hid⟩
    · cases hid
  · rintro pre call post held rfl
    exact cancelCall_of_held h held

/-- A message takes up the whole window, so that a subscription is held back. -/
def detained : List Command :=
  [.connect 0 { clientId := "", host := "h", port := 1883, inflight := 1
                one_le_inflight := Config.one_le_one },
    .opened 1 (.ok none),
    .incoming 1 (.connAck { sessionPresent := false, code := .success }),
    .call (.publish 1 { qos := .atLeastOnce, topic := "t", payload := [] }),
    .call (.subscribe 2 { filters := [{ path := "a", qos := .atMostOnce }] } 0)]

theorem reachable_detained : Reachable detained (detained.foldl handle {}) :=
  reachable_of_isRun (by decide +kernel)

theorem takesNext_detained (k : UInt16) (p : Pending) :
    (detained.foldl handle {}).pending[k]? = some p → p.call? = some 1 →
      ((detained.foldl handle {}).withdrawn k).TakesNext := by
  have pending : (detained.foldl handle {}).pending.toList = [(1, .publish 1)] := by decide +kernel
  have backlog : (detained.foldl handle {}).backlog =
      [.subscribe 2 { filters := [{ path := "a", qos := .atMostOnce }] } 0] := by decide +kernel
  have next : ((detained.foldl handle {}).withdrawn 1).session.nextPacketId = .ok 2 := by
    decide +kernel
  have link : (detained.foldl handle {}).link = some { maxOutgoing := 10240 } := by decide +kernel
  intro hp _ call rest j l _ _ waiting given linked
  have held := Std.TreeMap.mem_toList_iff_getElem?_eq_some.2 hp
  rw [pending, List.mem_singleton] at held
  cases held
  cases next.symm.trans given
  cases link.symm.trans linked
  cases backlog.symm.trans waiting
  exact ⟨⟨⟨[130, 7, 0, 2, 0, 0, 1, 97, 0], by decide +kernel⟩, by decide +kernel⟩, nofun⟩

theorem cancel_detained :
    let e := detained.foldl handle {}
    let d := e.handle (.cancel 1)
    e.pending[(1 : UInt16)]? = some (.publish 1) ∧ LetsThrough (e.withdrawn 1) d ∧
      (∃ sent, Vacates 1 sent e d) ∧ Drops 1 (detained ++ [.cancel 1]) d := by
  have waits : (detained.foldl handle {}).pending[(1 : UInt16)]? = some (.publish 1) := by
    decide +kernel
  exact ⟨waits, (cancel_spares reachable_detained 1 takesNext_detained).1 1 _ waits rfl⟩

/-- The subscription that is let through enters its filter into the table. -/
theorem not_cancel_spares_subscriptions :
    ¬ ∀ past e id, Reachable past e →
      (∀ (k : UInt16) p, e.pending[k]? = some p → p.call? = some id →
        (e.withdrawn k).TakesNext) →
      ∀ f, (e.handle (.cancel id)).subscriptions.get? f = e.subscriptions.get? f := by
  intro spares
  have same := spares _ _ 1 reachable_detained takesNext_detained "a"
  have before : (detained.foldl handle {}).subscriptions.get? "a" = none := by decide +kernel
  have after : ((detained.foldl handle {}).handle (.cancel 1)).subscriptions.get? "a"
      = some { qos := .atMostOnce, handler := 0 } := by decide +kernel
  cases before.symm.trans (same.symm.trans after)

end Engine

end MqttClient
