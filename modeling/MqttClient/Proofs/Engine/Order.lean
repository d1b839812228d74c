import MqttClient.Proofs.Engine.Steps

/-! The order in which requests first go out. A call is sent at once only if nothing waits before
it, and the backlog is sent from its front, so that whatever was written or waits for an
acknowledgement was called before all that is held back. A connection that is lost over a request
leaves at most that one waiting unwritten, and the next connection writes it before any new one. -/

namespace MqttClient.Engine

def Met (e : Engine) (id : CallId) : Prop := id ∈ e.asked ∨ e.Waits id

def Asks (e : Engine) (id : CallId) : Prop := ∃ packet, e.Repeats (some id) packet

def IsMade (past : List Command) (id : Option CallId) (packet : Packet) : Prop :=
  ∃ call : Option Call, IsOf call id packet ∧ ∀ c, call = some c → .call c ∈ past

/-- Whatever is written, waits or is held back belongs to a call that was made. -/
structure Genuine (past : List Command) (e : Engine) : Prop where
  requests : ∀ r ∈ e.requests, IsMade past r.1 r.2
  repeats : ∀ {id packet}, e.Repeats id packet → IsMade past id packet
  waits : ∀ {id}, e.Waits id → ∃ c, .call c ∈ past ∧ c.id = id
  backlog : ∀ c ∈ e.backlog, .call c ∈ past

/-- Requests go out by the rank of their calls, and what is held back ranks last. -/
structure Ordered (rank : CallId → Nat) (e : Engine) : Prop where
  asked : ∀ {a b}, a ∈ e.asked → b ∈ e.asked → e.asked.idxOf a < e.asked.idxOf b → rank a < rank b
  held : ∀ {a}, e.Met a → ∀ c ∈ e.backlog, rank a < rank c.id
  backlog : e.backlog.Pairwise fun c c' => rank c.id < rank c'.id
  /-- A call whose request was lost with the connection comes after all others. -/
  unasked : ∀ {a}, e.Asks a → a ∉ e.asked → ∀ {b}, b ∈ e.asked ∨ (e.Asks b ∧ b ≠ a) →
    rank b < rank a
  allSent : e.session.connection = .connected → e.AllSent

section

variable {past : List Command} {rank : CallId → Nat} {e d : Engine} {call : Option Call}

theorem Asks.met {a : CallId} (h : e.Asks a) : e.Met a := by
  obtain ⟨packet, again⟩ := h
  exact .inr again.waits

theorem Genuine.wanes (h : Genuine past e) (w : Wanes e d) : Genuine past d where
  requests r hr := by
    obtain ⟨out, he, again⟩ := w.requests
    rw [he, List.mem_append] at hr
    exact hr.elim (h.requests r) fun hr => h.repeats (again r hr)
  repeats again := h.repeats (w.repeats again)
  waits waits := h.waits (w.waits waits)
  backlog c hc := h.backlog c (w.backlog.subset hc)

theorem Genuine.grows (h : Genuine past e) (g : Grows call e d)
    (made : ∀ c, call = some c → .call c ∈ past) : Genuine past d := by
  have new : ∀ {id packet}, IsOf call id packet → IsMade past id packet :=
    fun isOf => ⟨call, isOf, made⟩
  refine ⟨fun r hr => ?_, fun again => ?_, fun waits => ?_, fun c hc => ?_⟩
  · obtain ⟨out, he, again⟩ := g.requests
    rw [he, List.mem_append] at hr
    exact hr.elim (h.requests r) fun hr => (again r hr).elim h.repeats new
  · exact (g.repeats again).elim h.repeats new
  · refine (g.waits waits).elim h.waits ?_
    rintro ⟨c, hc, hid⟩
    exact ⟨c, made c hc, hid⟩
  · exact h.backlog c (g.backlog.subset hc)

theorem idxOf_append_lt {asked out : List CallId} {a b : CallId}
    (lt : (asked ++ out).idxOf a < (asked ++ out).idxOf b) :
    (a ∈ asked ∧ b ∈ asked ∧ asked.idxOf a < asked.idxOf b) ∨ b ∉ asked := by
  by_cases hb : b ∈ asked
  · left
    rw [List.idxOf_append_of_mem hb] at lt
    have bound := List.idxOf_lt_length_iff.2 hb
    by_cases ha : a ∈ asked
    · rw [List.idxOf_append_of_mem ha] at lt
      exact ⟨ha, hb, lt⟩
    · rw [List.idxOf_append_of_notMem ha] at lt
      omega
  · exact .inr hb

theorem Wanes.asked (w : Wanes e d) :
    ∃ out, d.asked = e.asked ++ out ∧ ∀ a ∈ out, e.Asks a := by
  obtain ⟨out, he, again⟩ := w.requests
  refine ⟨out.filterMap (·.1), by rw [Engine.asked, he, List.filterMap_append]; rfl, fun a ha => ?_⟩
  obtain ⟨r, hr, hid⟩ := List.mem_filterMap.1 ha
  exact ⟨r.2, hid ▸ again r hr⟩

theorem IsOf.exists_call {a : CallId} {packet : Packet} (h : IsOf call (some a) packet) :
    ∃ c, call = some c ∧ c.id = a :=
  Option.map_eq_some_iff.1 h.1.symm

theorem Grows.asked (g : Grows call e d) (allSent : e.AllSent) :
    ∃ out, d.asked = e.asked ++ out ∧
      ∀ a ∈ out, a ∈ e.asked ∨ ∃ c, call = some c ∧ c.id = a := by
  obtain ⟨out, he, again⟩ := g.requests
  refine ⟨out.filterMap (·.1), by rw [Engine.asked, he, List.filterMap_append]; rfl, fun a ha => ?_⟩
  obtain ⟨r, hr, hid⟩ := List.mem_filterMap.1 ha
  have known := again r hr
  rw [hid] at known
  exact known.imp allSent IsOf.exists_call

theorem Ordered.wanes (h : Ordered rank e) (w : Wanes e d)
    (allSent : d.session.connection = .connected → d.AllSent) : Ordered rank d := by
  obtain ⟨out, hasked, again⟩ := w.asked
  have asks : ∀ {a}, d.Asks a → e.Asks a := fun ⟨packet, hp⟩ => ⟨packet, w.repeats hp⟩
  have asked : ∀ {a}, a ∈ d.asked → a ∈ e.asked ∨ e.Asks a := by
    intro a ha
    rw [hasked, List.mem_append] at ha
    exact ha.imp_right (again a)
  have met : ∀ {a}, d.Met a → e.Met a := fun hm =>
    hm.elim (fun ha => (asked ha).elim .inl Asks.met) fun hw => .inr (w.waits hw)
  refine ⟨fun {a b} ha hb lt => ?_, fun hm c hc => h.held (met hm) c (w.backlog.subset hc),
    h.backlog.sublist w.backlog, fun {a} ha new b hb => ?_, allSent⟩
  · rw [hasked] at lt
    obtain ⟨ha', hb', lt'⟩ | new := idxOf_append_lt lt
    · exact h.asked ha' hb' lt'
    · have ne : a ≠ b := fun same => by simp [same] at lt
      exact h.unasked ((asked hb).resolve_left new) new ((asked ha).imp_right (⟨·, ne⟩))
  · have old : a ∉ e.asked := fun ha' => new (hasked ▸ List.mem_append_left _ ha')
    refine h.unasked (asks ha) old ?_
    obtain hb | ⟨hb, ne⟩ := hb
    · have ne : b ≠ a := fun same => new (same ▸ hb)
      exact (asked hb).imp_right (⟨·, ne⟩)
    · exact .inr ⟨asks hb, ne⟩

theorem Ordered.grows (h : Ordered rank e) (hc : e.session.connection = .connected)
    (g : Grows call e d) (after : ∀ c, call = some c → ∀ {a}, e.Met a → rank a < rank c.id)
    (before : ∀ c, call = some c → ∀ c' ∈ e.backlog, rank c.id < rank c'.id) :
    Ordered rank d := by
  obtain ⟨out, hasked, again⟩ := g.asked (h.allSent hc)
  have asked : ∀ {a}, a ∈ d.asked → a ∈ e.asked ∨ ∃ c, call = some c ∧ c.id = a := by
    intro a ha
    rw [hasked, List.mem_append] at ha
    exact ha.elim .inl (again a)
  have asks : ∀ {a}, d.Asks a → a ∈ e.asked ∨ ∃ c, call = some c ∧ c.id = a :=
    fun ⟨_, hp⟩ => (g.repeats hp).imp (h.allSent hc) IsOf.exists_call
  have kept : ∀ {a}, a ∈ e.asked → a ∈ d.asked := fun ha => hasked ▸ List.mem_append_left _ ha
  -- What is not in the old list is the new call alone.
  have lt_of_new : ∀ {a b}, (a ∈ e.asked ∨ ∃ c, call = some c ∧ c.id = a) → b ∉ e.asked →
      (b ∈ e.asked ∨ ∃ c, call = some c ∧ c.id = b) → a ≠ b → rank a < rank b := by
    intro a b ha new hb ne
    obtain ⟨c, hcall, rfl⟩ := hb.resolve_left new
    obtain ha | ⟨c', hcall', rfl⟩ := ha
    · exact after c hcall (.inl ha)
    · cases hcall.symm.trans hcall'
      exact absurd rfl ne
  refine ⟨fun {a b} ha hb lt => ?_, fun {a} hm c' hc' => ?_, h.backlog.sublist g.backlog,
    fun {a} ha new b hb => ?_, fun hd {a packet} hp => ?_⟩
  · have ne : a ≠ b := fun same => by simp [same] at lt
    rw [hasked] at lt
    obtain ⟨ha', hb', lt'⟩ | new := idxOf_append_lt lt
    · exact h.asked ha' hb' lt'
    · exact lt_of_new (asked ha) new (asked hb) ne
  · have hc' := g.backlog.subset hc'
    have met : e.Met a ∨ ∃ c, call = some c ∧ c.id = a :=
      hm.elim (fun ha => (asked ha).imp_left .inl) fun hw => (g.waits hw).imp_left .inr
    obtain old | ⟨c, hcall, rfl⟩ := met
    · exact h.held old c' hc'
    · exact before c hcall c' hc'
  · have new' : a ∉ e.asked := fun ha' => new (kept ha')
    obtain hb | ⟨hb, ne⟩ := hb
    · exact lt_of_new (asked hb) new' (asks ha) fun same => new (same ▸ hb)
    · exact lt_of_new (asks hb) new' (asks ha) ne
  · obtain old | ⟨c, hcall, rfl⟩ := asks ⟨packet, hp⟩
    · exact kept old
    · exact g.sent hd c hcall

theorem Ordered.holdBack (h : Ordered rank e) {c : Call}
    (last : ∀ {a}, e.Met a → rank a < rank c.id)
    (behind : ∀ c' ∈ e.backlog, rank c'.id < rank c.id) :
    Ordered rank { e with backlog := e.backlog ++ [c] } where
  asked := h.asked
  held hm c' hc' := by
    rw [List.mem_append, List.mem_singleton] at hc'
    obtain hc' | rfl := hc'
    · exact h.held hm c' hc'
    · exact last hm
  backlog := by
    refine List.pairwise_append.2 ⟨h.backlog, List.pairwise_singleton _ _, fun c' hc' _ hm => ?_⟩
    rw [List.mem_singleton.1 hm]
    exact behind c' hc'
  unasked := h.unasked
  allSent := h.allSent

theorem Ordered.rerank {rank' : CallId → Nat} (h : Ordered rank e)
    (met : ∀ {a}, e.Met a → rank' a = rank a) (held : ∀ c ∈ e.backlog, rank' c.id = rank c.id) :
    Ordered rank' e where
  asked ha hb lt := by
    rw [met (.inl ha), met (.inl hb)]
    exact h.asked ha hb lt
  held hm c hc := by
    rw [met hm, held c hc]
    exact h.held hm c hc
  backlog := h.backlog.imp_of_mem fun hc hc' lt => by rwa [held _ hc, held _ hc']
  unasked ha new b hb := by
    rw [met ha.met, met (hb.elim .inl fun hb => hb.1.met)]
    exact h.unasked ha new hb
  allSent := h.allSent

end

def made (past : List Command) : List CallId := past.filterMap Command.call?

def rank (past : List Command) (id : CallId) : Nat := (made past).idxOf id

structure InOrder (past : List Command) (e : Engine) : Prop where
  genuine : Genuine past e
  ordered : Ordered (rank past) e

section

variable {past : List Command} {e d : Engine} {c : Command}

theorem mem_made {call : Call} (h : .call call ∈ past) : call.id ∈ made past :=
  List.mem_filterMap.2 ⟨_, h, rfl⟩

theorem Genuine.mem_made (h : Genuine past e) {a : CallId} (met : e.Met a) : a ∈ made past := by
  obtain asked | waits := met
  · obtain ⟨r, hr, hid⟩ := List.mem_filterMap.1 asked
    obtain ⟨call, isOf, hm⟩ := h.requests r hr
    obtain ⟨c, hc, rfl⟩ := Option.map_eq_some_iff.1 (isOf.1.symm.trans hid)
    exact Engine.mem_made (hm c hc)
  · obtain ⟨call, hm, rfl⟩ := h.waits waits
    exact Engine.mem_made hm

theorem rank_snoc {a : CallId} (h : a ∈ made past) : rank (past ++ [c]) a = rank past a := by
  rw [rank, made, List.filterMap_append]
  exact List.idxOf_append_of_mem h

theorem rank_lt_rank_new (possible : Possible past e c) {a id : CallId} (ha : a ∈ made past)
    (hc : c.call? = some id) : rank (past ++ [c]) a < rank (past ++ [c]) id := by
  have new : id ∉ made past := fun old => by
    obtain ⟨x, hx, hid⟩ := List.mem_filterMap.1 old
    exact possible.fresh id hc x hx hid
  have last : rank (past ++ [c]) id = (made past).length + [id].idxOf id := by
    rw [rank, made, List.filterMap_append, List.filterMap_cons, hc, List.filterMap_nil]
    exact List.idxOf_append_of_notMem new
  rw [rank_snoc ha, last]
  exact Nat.lt_add_right _ (List.idxOf_lt_length_iff.2 ha)

theorem Reachable.nodup_made (h : Reachable past e) : (made past).Nodup := by
  induction h using Reachable.course_induction with
  | start => exact .nil
  | @handle past e c _ possible _ ih =>
    rw [made, List.filterMap_append, List.nodup_append]
    refine ⟨ih, ?_, fun a ha b hb same => ?_⟩
    · cases hc : c.call? <;> simp [hc]
    · subst same
      obtain ⟨x, hx, hid⟩ := List.mem_filterMap.1 ha
      obtain ⟨y, hy, hid'⟩ := List.mem_filterMap.1 hb
      rw [List.mem_singleton] at hy
      exact possible.fresh a (hy ▸ hid') x hx hid
  | drift _ _ ih => exact ih

theorem Reachable.rank_lt (h : Reachable past e) {i j : Nat} {x y : Command} {a b : CallId}
    (hij : i < j) (hx : past[i]? = some x) (hy : past[j]? = some y) (ha : x.call? = some a)
    (hb : y.call? = some b) : rank past a < rank past b := by
  have split : past = past.take j ++ y :: past.drop (j + 1) := by
    obtain ⟨hj, rfl⟩ := List.getElem?_eq_some_iff.1 hy
    rw [List.getElem_cons_drop, List.take_append_drop]
  have parts : made past = made (past.take j) ++ b :: made (past.drop (j + 1)) := by
    conv => lhs; rw [split, made, List.filterMap_append, List.filterMap_cons, hb]
    rfl
  have earlier : a ∈ made (past.take j) := by
    refine List.mem_filterMap.2 ⟨x, List.mem_of_getElem? (i := i) ?_, ha⟩
    rw [List.getElem?_take_of_lt hij, hx]
  have later : b ∉ made (past.take j) := fun hm => by
    have distinct := h.nodup_made
    rw [parts, List.nodup_append] at distinct
    exact distinct.2.2 b hm b List.mem_cons_self rfl
  have lt := List.idxOf_lt_length_iff.2 earlier
  rw [rank, rank, parts, List.idxOf_append_of_mem earlier, List.idxOf_append_of_notMem later]
  omega

theorem Wanes.allSent (w : Wanes e d) (h : e.AllSent) : d.AllSent := fun again => by
  obtain ⟨out, hasked, -⟩ := w.asked
  rw [hasked]
  exact List.mem_append_left _ (h (w.repeats again))

theorem InOrder.wanes (h : InOrder past e) (w : Wanes e d)
    (allSent : d.session.connection = .connected → d.AllSent) : InOrder past d :=
  ⟨h.genuine.wanes w, h.ordered.wanes w allSent⟩

theorem InOrder.recedes (h : InOrder past e) (r : Recedes e d) : InOrder past d :=
  h.wanes r.toWanes fun hd =>
    r.toWanes.allSent (h.ordered.allSent (r.connection_eq (.inl hd) ▸ hd))

theorem InOrder.grows (h : InOrder past e) (hc : e.session.connection = .connected)
    {call : Option Call} (g : Grows call e d) (made : ∀ c, call = some c → .call c ∈ past)
    (after : ∀ c, call = some c → ∀ {a}, e.Met a → rank past a < rank past c.id)
    (before : ∀ c, call = some c → ∀ c' ∈ e.backlog, rank past c.id < rank past c'.id) :
    InOrder past d :=
  ⟨h.genuine.grows g made, h.ordered.grows hc g after before⟩

theorem InOrder.sendFront (h : InOrder past e) (hc : e.session.connection = .connected)
    {call : Call} {rest : List Call} (hb : e.backlog = call :: rest) :
    InOrder past (({ e with backlog := rest } : Engine).sendCall call) := by
  have front : call ∈ e.backlog := hb ▸ List.mem_cons_self
  have shorter : rest.Sublist e.backlog := hb ▸ List.sublist_cons_self call rest
  have popped : InOrder past { e with backlog := rest } :=
    h.wanes ⟨Nat.le_refl _, id, id, shorter, [], (List.append_nil _).symm, nofun⟩ h.ordered.allSent
  obtain rests | ⟨-, grows⟩ := ({ e with backlog := rest } : Engine).sendCall_cases call
  · exact popped.recedes rests.toRecedes
  · refine popped.grows hc grows ?_ ?_ ?_
    · rintro _ ⟨⟩
      exact h.genuine.backlog call front
    · rintro _ ⟨⟩ a met
      exact h.ordered.held met call front
    · rintro _ ⟨⟩
      have sorted := h.ordered.backlog
      rw [hb, List.pairwise_cons] at sorted
      exact sorted.1

theorem InOrder.drainBacklog (h : InOrder past e) : InOrder past e.drainBacklog :=
  drainLoop_induction e.backlog.length h fun _ _ _ ordered hc _ hb => ordered.sendFront hc hb

theorem InOrder.resubscribe (h : InOrder past e) (hc : e.session.connection = .connected) :
    InOrder past e.resubscribe := by
  obtain rests | ⟨-, grows⟩ := e.resubscribe_cases
  · exact h.recedes rests.toRecedes
  · exact h.grows hc grows nofun nofun nofun

theorem InOrder.request (h : InOrder past e) {call : Call} (hm : .call call ∈ past)
    (last : ∀ {a}, e.Met a → rank past a < rank past call.id)
    (behind : ∀ c ∈ e.backlog, rank past c.id < rank past call.id) :
    InOrder past (e.request call false) := by
  obtain rests | ⟨hc, -, empty, grows⟩ | ⟨-, -, held⟩ := e.request_cases call
  · exact h.recedes rests.toRecedes
  · refine h.grows hc grows ?_ ?_ fun _ _ c hc => ?_
    · rintro _ ⟨⟩
      exact hm
    · rintro _ ⟨⟩ a met
      exact last met
    · rw [empty] at hc
      cases hc
  · rw [held]
    refine ⟨{ h.genuine with backlog := fun c hc => ?_ }, h.ordered.holdBack last behind⟩
    exact (List.mem_append.1 hc).elim (h.genuine.backlog c) fun hc => List.mem_singleton.1 hc ▸ hm

theorem IsMade.mono {past' : List Command} {id : Option CallId} {packet : Packet}
    (h : IsMade past id packet) (le : past ⊆ past') : IsMade past' id packet := by
  obtain ⟨call, isOf, hm⟩ := h
  exact ⟨call, isOf, fun c hc => le (hm c hc)⟩

theorem Genuine.mono {past' : List Command} (h : Genuine past e) (le : past ⊆ past') :
    Genuine past' e where
  requests r hr := (h.requests r hr).mono le
  repeats again := (h.repeats again).mono le
  waits waits := (h.waits waits).imp fun _ hc => hc.imp_left (@le _)
  backlog c hc := le (h.backlog c hc)

theorem InOrder.snoc (h : InOrder past e) (c : Command) : InOrder (past ++ [c]) e where
  genuine := h.genuine.mono (List.subset_append_left _ _)
  ordered := h.ordered.rerank (fun met => rank_snoc (h.genuine.mem_made met)) fun c hc =>
    rank_snoc (mem_made (h.genuine.backlog c hc))

theorem InOrder.course (h : InOrder past e) (possible : Possible past e c) (course : Course e c d) :
    InOrder (past ++ [c]) d := by
  have known := h.snoc c
  cases course with
  | rests rests => exact known.recedes rests.toRecedes
  | drained recedes rests =>
    exact (known.recedes recedes).drainBacklog.recedes rests.toRecedes
  | @requested call hc =>
    subst hc
    exact known.request (by simp)
      (fun met => rank_lt_rank_new possible (h.genuine.mem_made met) rfl) fun c hc =>
        rank_lt_rank_new possible (mem_made (h.genuine.backlog c hc)) rfl
  | attempted attempts =>
    exact known.wanes attempts.toWanes fun hd => by cases attempts.connecting.symm.trans hd
  | greeted _ _ _ _ opens allSent rests =>
    exact (known.wanes opens.toWanes fun _ => allSent).recedes rests.toRecedes
  | resumed _ _ _ opens allSent rests =>
    exact ((known.wanes opens.toWanes fun _ => allSent).resubscribe
      opens.connected).drainBacklog.recedes rests.toRecedes

theorem Reachable.inOrder (h : Reachable past e) : InOrder past e := by
  induction h using Reachable.course_induction with
  | start =>
    have unheld : ∀ {a}, ¬ ({} : Engine).Waits a := by
      rintro a ⟨k, p, hp, -⟩
      cases (Std.TreeMap.getElem?_emptyc (a := k)).symm.trans hp
    have unsent : ∀ {id packet}, ¬ ({} : Engine).Repeats id packet := by
      rintro id packet ⟨k, p, -, hp, -⟩
      cases (Std.TreeMap.getElem?_emptyc (a := k)).symm.trans hp
    refine ⟨⟨nofun, fun again => absurd again unsent, fun waits => absurd waits unheld, nofun⟩,
      ⟨nofun, nofun, .nil, ?_, nofun⟩⟩
    rintro a ⟨packet, again⟩
    exact absurd again unsent
  | handle _ possible course ih => exact ih.course possible course
  | drift _ drifts ih => exact ih.recedes drifts.rests.toRecedes

end

/-- Whatever is asked for was called for, and the first requests of two calls go out in the order
in which the engine took the calls. -/
theorem asked_in_order_of_reachable {past : List Command} {e : Engine} (h : Reachable past e) :
    (∀ id packet, (id, packet) ∈ e.requests →
      (∃ c, .call c ∈ past ∧ id = some c.id ∧ c.Carries packet) ∨
        (id = none ∧ ∃ p, packet = .subscribe p)) ∧
    ∀ (i j : Nat) (a b : Call), i < j → past[i]? = some (.call a) → past[j]? = some (.call b) →
      a.id ∈ e.asked → b.id ∈ e.asked → e.asked.idxOf a.id < e.asked.idxOf b.id := by
  have inOrder := h.inOrder
  refine ⟨fun id packet hr => ?_, fun i j a b hij ha hb asked asked' => ?_⟩
  · obtain ⟨call, isOf, hm⟩ := inOrder.genuine.requests _ hr
    cases call with
    | none => exact .inr isOf
    | some c => exact .inl ⟨c, hm c rfl, isOf⟩
  · have lt := h.rank_lt hij ha hb rfl rfl
    obtain before | same | after := Nat.lt_trichotomy (e.asked.idxOf a.id) (e.asked.idxOf b.id)
    · exact before
    · rw [List.idxOf_inj asked |>.1 same] at lt
      exact absurd lt (Nat.lt_irrefl _)
    · exact absurd (inOrder.ordered.asked asked' asked after) (Nat.lt_asymm lt)

/-- The connection is lost while the second of two messages waits for the acknowledgement of the
first, and both go out on the next one. -/
def deferred : List Command :=
  [.connect 0 { clientId := "", host := "h", port := 1883, inflight := 1, reconnect := some {}
                one_le_inflight := Config.one_le_one },
    .opened 1 (.ok none), .incoming 1 (.connAck { sessionPresent := false, code := .success }),
    .call (.publish 1 { qos := .atLeastOnce, topic := "a", payload := [] }),
    .call (.publish 2 { qos := .atLeastOnce, topic := "a", payload := [] }),
    .networkDown 1 .connectionClosed, .timer .reconnect 4, .opened 3 (.ok none),
    .incoming 3 (.connAck { sessionPresent := true, code := .success }),
    .incoming 3 (.pubAck { packetId := 1, reason := .success })]

theorem asked_in_order_deferred :
    let e := deferred.foldl handle {}
    Reachable deferred e ∧ 1 ∈ e.asked ∧ 2 ∈ e.asked ∧ e.asked.idxOf 1 < e.asked.idxOf 2 := by
  have reachable : Reachable deferred (deferred.foldl handle {}) :=
    reachable_of_isRun (by decide +kernel)
  have first : 1 ∈ (deferred.foldl handle {}).asked := by decide +kernel
  have second : 2 ∈ (deferred.foldl handle {}).asked := by decide +kernel
  exact ⟨reachable, first, second, (asked_in_order_of_reachable reachable).2 3 4
    (.publish 1 { qos := .atLeastOnce, topic := "a", payload := [] })
    (.publish 2 { qos := .atLeastOnce, topic := "a", payload := [] })
    (by decide) rfl rfl first second⟩

end MqttClient.Engine
