import MqttClient.Proofs.Session.Turns

/-! How transactions end. A transaction is told from every other by its number, also from those that
had its identifier before it. Over any history the transactions that were opened are those that
ended, each once and in a way that suits it, and those that are still open. -/

namespace MqttClient

namespace Session

def history (s : Session) : List Operation → List (Session × Operation)
  | [] => []
  | op :: ops => (s, op) :: history (s.step op) ops

def orders (s : Session) : List Nat := s.transactions.map (·.order)

theorem orders_perm (s : Session) : s.orders.Perm (s.outgoing.toList.map (·.2.order)) := by
  have perm := (transactions_perm s).map (·.order)
  rwa [List.map_map] at perm

theorem orders_congr {s s' : Session}
    (h : ∀ k : UInt16, s'.outgoing[k]?.map (·.order) = s.outgoing[k]?.map (·.order)) :
    s'.orders.Perm s.orders := by
  let entries (s : Session) := s.outgoing.toList.map fun x => (x.1, x.2.order)
  have nodup : ∀ s, (entries s).Nodup := by
    intro s
    refine List.Pairwise.map _ (fun a b distinct equal => distinct ?_)
      s.outgoing.distinct_keys_toList
    rw [(Prod.mk.inj equal).1]
    exact Std.ReflCmp.compare_self
  have mem : ∀ s k n, (k, n) ∈ entries s ↔ s.outgoing[k]?.map (·.order) = some n := by
    intro s k n
    simp only [entries, List.mem_map, Prod.exists, Prod.mk.injEq,
      Std.TreeMap.mem_toList_iff_getElem?_eq_some, Option.map_eq_some_iff]
    constructor
    · rintro ⟨j, t, ht, rfl, rfl⟩
      exact ⟨t, ht, rfl⟩
    · rintro ⟨t, ht, rfl⟩
      exact ⟨k, t, ht, rfl, rfl⟩
  have perm : (entries s').Perm (entries s) := by
    rw [List.perm_ext_iff_of_nodup (nodup s') (nodup s)]
    rintro ⟨k, n⟩
    rw [mem, mem, h]
  have numbers : ∀ s, (entries s).map (·.2) = s.outgoing.toList.map (·.2.order) := by
    intro s
    rw [List.map_map]
    rfl
  have perm := perm.map (·.2)
  rw [numbers, numbers] at perm
  exact (orders_perm s').trans (perm.trans (orders_perm s).symm)

theorem orders_of_erase {s s' : Session} {k : UInt16} {t : Transaction}
    (ht : s.outgoing[k]? = some t) (hs : s'.outgoing = s.outgoing.erase k) :
    s.orders.Perm (t.order :: s'.orders) := by
  have perm := (Listing.toList_perm_erase ht).map (·.2.order)
  rw [← hs] at perm
  exact (orders_perm s).trans (perm.trans (.cons _ (orders_perm s').symm))

theorem orders_of_insert {s s' : Session} {k : UInt16} {t : Transaction}
    (free : s.outgoing[k]? = none) (hs : s'.outgoing = s.outgoing.insert k t) :
    s'.orders.Perm (t.order :: s.orders) := by
  have perm := (Listing.toList_insert_perm_of_fresh (v := t) free).map (·.2.order)
  rw [← hs] at perm
  exact (orders_perm s').trans (perm.trans (.cons _ (orders_perm s).symm))

theorem Turn.orders {s : Session} {op : Operation} (h : s.Turn op) :
    ((s.opened op).map (·.order) ++ s.orders).Perm
      ((s.ended op).map (·.1.order) ++ (s.step op).orders) := by
  cases h with
  | kept opened_eq ended_eq _ same =>
    rw [opened_eq, ended_eq]
    refine (orders_congr fun k => ?_).symm
    have same := congrArg (Option.map (·.1)) (same k)
    simp only [Option.map_map] at same
    exact same
  | @released now a t _ _ ht opened_eq ended_eq _ outgoing_eq =>
    rw [opened_eq, ended_eq]
    refine (orders_congr fun k => ?_).symm
    rw [outgoing_eq, Std.TreeMap.getElem?_insert]
    split
    · next e =>
      rw [Std.LawfulEqCmp.compare_eq_iff_eq] at e
      simp [← e, ht]
    · rfl
  | opened free _ _ opened_eq ended_eq _ outgoing_eq =>
    rw [opened_eq, ended_eq]
    exact (orders_of_insert free outgoing_eq).symm
  | ended ht _ opened_eq ended_eq _ outgoing_eq =>
    rw [opened_eq, ended_eq]
    exact orders_of_erase ht outgoing_eq
  | cleaned opened_eq ended_eq _ outgoing_eq =>
    have none : (s.step op).orders = [] := by
      refine List.Perm.eq_nil ((orders_perm _).trans (.of_eq ?_))
      rw [outgoing_eq]
      rfl
    rw [opened_eq, ended_eq, none, List.append_nil, List.map_map]
    exact .refl _

theorem Turn.lastOrder {s : Session} {op : Operation} (h : s.Turn op) :
    (s.opened op = [] ∧ (s.step op).lastOrder = s.lastOrder) ∨
      ∃ t, s.opened op = [t] ∧ t.order = s.lastOrder + 1 ∧
        (s.step op).lastOrder = s.lastOrder + 1 := by
  cases h with
  | opened _ order_eq _ opened_eq _ lastOrder_eq _ =>
    exact .inr ⟨_, opened_eq, order_eq, lastOrder_eq⟩
  | _ => exact .inl ⟨‹_›, ‹_›⟩

theorem opened_of_not_opens {s : Session} (h : s.IsSound) {r : Request} (hr : ¬ r.Opens)
    (now : Time) : s.opened (.send now r) = [] := by
  obtain ⟨connection, awaitPingResp, same⟩ := s.send_of_not_opens hr now
  obtain ⟨none, -⟩ | ⟨t, -, -, next⟩ := (turn_of_step h (.send now r)).lastOrder
  · exact none
  · rw [step, same] at next
    exact absurd next.symm (Nat.succ_ne_self s.lastOrder)

def allOpened (past : List (Session × Operation)) : List Transaction :=
  past.flatMap fun x => x.1.opened x.2

theorem allOpened_concat (past : List (Session × Operation)) (s : Session) (op : Operation) :
    allOpened (past ++ [(s, op)]) = allOpened past ++ s.opened op := by
  simp [allOpened]

def allEnded (past : List (Session × Operation)) : List (Transaction × Ending) :=
  past.flatMap fun x => x.1.ended x.2

theorem orders_run {s : Session} (h : s.IsSound) (ops : List Operation) :
    ((allOpened (s.history ops)).map (·.order) ++ s.orders).Perm
      ((allEnded (s.history ops)).map (·.1.order) ++ (s.run ops).orders) := by
  induction ops generalizing s with
  | nil => exact .refl _
  | cons op ops ih =>
    have rest := ih (step_isSound h op)
    have first := (turn_of_step h op).orders
    simp only [history, allOpened, allEnded, List.flatMap_cons, List.map_append,
      List.append_assoc] at rest ⊢
    refine (List.perm_append_comm_assoc _ _ _).trans ((first.append_left _).trans ?_)
    exact (List.perm_append_comm_assoc _ _ _).trans (rest.append_left _)

theorem opened_ascending {s : Session} (h : s.IsSound) (ops : List Operation) :
    ((allOpened (s.history ops)).map (·.order)).Pairwise (· < ·) ∧
      ∀ t ∈ allOpened (s.history ops), s.lastOrder < t.order := by
  induction ops generalizing s with
  | nil => exact ⟨.nil, nofun⟩
  | cons op ops ih =>
    obtain ⟨ascending, above⟩ := ih (step_isSound h op)
    have split : allOpened (s.history (op :: ops)) =
        s.opened op ++ allOpened ((s.step op).history ops) := by simp [history, allOpened]
    rw [split]
    obtain ⟨none, same⟩ | ⟨t, one, order, next⟩ := (turn_of_step h op).lastOrder
    · rw [none, List.nil_append]
      rw [same] at above
      exact ⟨ascending, above⟩
    · rw [next] at above
      rw [one, List.singleton_append, List.map_cons, List.pairwise_cons]
      refine ⟨⟨?_, ascending⟩, ?_⟩
      · intro n hn
        obtain ⟨u, hu, rfl⟩ := List.mem_map.1 hn
        have := above u hu
        omega
      · intro u hu
        rcases List.mem_cons.1 hu with rfl | hu
        · omega
        · have := above u hu
          omega

/-- The operation handles the broker's acceptance of an exactly-once message. -/
def Confirms (s : Session) (op : Operation) (order : Nat) : Prop :=
  ∃ now a t, op = .receive now (.pubRec a) ∧ a.reason.isSuccess = true ∧
    s.outgoing[a.packetId]? = some t ∧ t.order = order

/-- The session after a history knows of each transaction what the history says. -/
structure Traced (past : List (Session × Operation)) (s : Session) : Prop where
  sound : s.IsSound
  opened : ∀ {k : UInt16} {t : Transaction}, s.outgoing[k]? = some t →
    ∃ u ∈ allOpened past, u.order = t.order ∧ u.packet = t.packet
  confirmed : ∀ {k : UInt16} {t : Transaction}, s.outgoing[k]? = some t → t.phase = .released →
    ∃ x ∈ past, x.1.Confirms x.2 t.order

theorem Turn.origin {s : Session} {op : Operation} (h : s.Turn op) {k : UInt16} {u : Transaction}
    (hu : (s.step op).outgoing[k]? = some u) :
    (u ∈ s.opened op ∧ u.phase ≠ .released) ∨
      ∃ t, s.outgoing[k]? = some t ∧ t.order = u.order ∧ t.packet = u.packet ∧
        (t.phase = u.phase ∨ s.Confirms op u.order) := by
  have stays : ∀ {t}, s.outgoing[k]? = some t → t.content = u.content →
      ∃ t, s.outgoing[k]? = some t ∧ t.order = u.order ∧ t.packet = u.packet ∧
        (t.phase = u.phase ∨ s.Confirms op u.order) := by
    intro t ht same
    simp only [Transaction.content, Prod.mk.injEq] at same
    exact ⟨t, ht, same.1, same.2.1, .inl same.2.2⟩
  cases h with
  | kept _ _ _ same =>
    have same := same k
    rw [hu, Option.map_some] at same
    obtain ⟨t, ht, content⟩ := Option.map_eq_some_iff.1 same.symm
    exact .inr (stays ht content)
  | @released now a t hop success ht _ _ _ outgoing_eq =>
    rw [outgoing_eq, Std.TreeMap.getElem?_insert] at hu
    split at hu
    · next e =>
      rw [Std.LawfulEqCmp.compare_eq_iff_eq] at e
      cases hu
      exact .inr ⟨t, e ▸ ht, rfl, rfl, .inr ⟨now, a, t, hop, success, ht, rfl⟩⟩
    · exact .inr (stays hu rfl)
  | opened _ _ phase_ne opened_eq _ _ outgoing_eq =>
    rw [outgoing_eq, Std.TreeMap.getElem?_insert] at hu
    split at hu
    · cases hu
      exact .inl ⟨by simp [opened_eq], phase_ne⟩
    · exact .inr (stays hu rfl)
  | ended _ _ _ _ _ outgoing_eq =>
    rw [outgoing_eq, Std.TreeMap.getElem?_erase] at hu
    split at hu
    · cases hu
    · exact .inr (stays hu rfl)
  | cleaned _ _ _ outgoing_eq => simp [outgoing_eq] at hu

theorem Traced.step {past : List (Session × Operation)} {s : Session} (h : Traced past s)
    (op : Operation) : Traced (past ++ [(s, op)]) (s.step op) := by
  have turn := turn_of_step h.sound op
  refine ⟨step_isSound h.sound op, fun {k u} hu => ?_, fun {k u} hu released => ?_⟩
  · rw [allOpened_concat]
    obtain ⟨new, -⟩ | ⟨t, ht, order, packet, -⟩ := turn.origin hu
    · exact ⟨u, List.mem_append_right _ new, rfl, rfl⟩
    · obtain ⟨v, hv, order', packet'⟩ := h.opened ht
      exact ⟨v, List.mem_append_left _ hv, order'.trans order, packet'.trans packet⟩
  · obtain ⟨-, unreleased⟩ | ⟨t, ht, order, -, phase | confirms⟩ := turn.origin hu
    · exact absurd released unreleased
    · obtain ⟨x, hx, confirms⟩ := h.confirmed ht (phase.trans released)
      exact ⟨x, List.mem_append_left _ hx, order ▸ confirms⟩
    · exact ⟨(s, op), by simp, confirms⟩

/-- The session has been through that history. Besides, it is noted in the session when a packet
was written last and how many transactions are allowed, and its events are taken notice of one by
one. -/
inductive Arises : List (Session × Operation) → Session → Prop
  | fresh (maxInflight : UInt16) : Arises [] (new maxInflight)
  | step {past : List (Session × Operation)} {s : Session} (h : Arises past s) (op : Operation) :
    Arises (past ++ [(s, op)]) (s.step op)
  | noted {past : List (Session × Operation)} {s : Session} (h : Arises past s)
    (lastOutgoing : Time) (maxInflight : UInt16) : Arises past { s with lastOutgoing, maxInflight }
  | popped {past : List (Session × Operation)} {s : Session} (h : Arises past s) :
    Arises past { s with events := s.events.tail }

namespace Arises

variable {past : List (Session × Operation)} {s : Session}

theorem run (h : Arises past s) (ops : List Operation) :
    Arises (past ++ s.history ops) (s.run ops) := by
  induction ops generalizing past s with
  | nil => simpa [history, Session.run] using h
  | cons op ops ih => simpa [history, Session.run] using ih (h.step op)

theorem traced (h : Arises past s) : Traced past s := by
  induction h with
  | fresh maxInflight => exact ⟨new_isSound maxInflight, by simp [new], by simp [new]⟩
  | step _ op ih => exact ih.step op
  | noted _ _ _ ih | popped _ ih => exact ⟨ih.sound.congr rfl rfl, ih.opened, ih.confirmed⟩

theorem ascending (h : Arises past s) : ((allOpened past).map (·.order)).Pairwise (· < ·) ∧
    ∀ t ∈ allOpened past, t.order ≤ s.lastOrder := by
  induction h with
  | fresh => simp [allOpened]
  | @step past s h op ih =>
    obtain ⟨ascending, below⟩ := ih
    rw [allOpened_concat]
    obtain ⟨none, same⟩ | ⟨t, one, order, next⟩ := (turn_of_step h.traced.sound op).lastOrder
    · rw [none, same, List.append_nil]
      exact ⟨ascending, below⟩
    · rw [one, next, List.map_append, List.pairwise_append]
      refine ⟨⟨ascending, List.pairwise_singleton _ _, ?_⟩, ?_⟩
      · intro n hn m hm
        obtain ⟨u, hu, rfl⟩ := List.mem_map.1 hn
        obtain rfl : m = t.order := by simpa using hm
        have := below u hu
        omega
      · intro u hu
        rcases List.mem_append.1 hu with hu | hu
        · exact Nat.le_succ_of_le (below u hu)
        · obtain rfl := List.mem_singleton.1 hu
          exact Nat.le_of_eq order
  | noted _ _ _ ih | popped _ ih => exact ih

end Arises

theorem arises_of_run (maxInflight : UInt16) (ops : List Operation) :
    Arises ((new maxInflight).history ops) ((new maxInflight).run ops) := by
  simpa using (Arises.fresh maxInflight).run ops

def interruptedOps : List Operation :=
  [.connecting, .receive 0 (.connAck { sessionPresent := false, code := .success }),
    .send 0 (.publish { qos := .exactlyOnce, topic := "a", payload := [] }),
    .send 0 (.subscribe { filters := [{ path := "b", qos := .atMostOnce }] }),
    .send 0 (.publish { qos := .atLeastOnce, topic := "c", payload := [] }),
    .receive 0 (.pubRec { packetId := 1, reason := .success }), .disconnected]

theorem traced_of_run (maxInflight : UInt16) (ops : List Operation) :
    Traced ((new maxInflight).history ops) ((new maxInflight).run ops) :=
  (arises_of_run maxInflight ops).traced

end Session

/-- What was asked for, and for an exactly-once message also what came before, allow the end. -/
def Ending.Suits (past : List (Session × Session.Operation)) (t : Transaction) : Ending → Prop
  | .reported (.published _ (.pubAck _)) => ∃ p, t.packet = .publish p ∧ p.qos = .atLeastOnce
  | .reported (.published _ (.pubRec a)) =>
    a.reason.isSuccess = false ∧ ∃ p, t.packet = .publish p ∧ p.qos = .exactlyOnce
  | .reported (.published _ (.pubComp _)) =>
    (∃ p, t.packet = .publish p ∧ p.qos = .exactlyOnce) ∧ ∃ x ∈ past, x.1.Confirms x.2 t.order
  | .reported (.subscribed _) => ∃ p, t.packet = .subscribe p
  | .reported (.unsubscribed _) => ∃ p, t.packet = .unsubscribe p
  | .reported _ => False
  | _ => True

namespace Session

theorem Traced.suits {past : List (Session × Operation)} {s : Session} (h : Traced past s)
    {k : UInt16} {t : Transaction} (ht : s.outgoing[k]? = some t) {way : Ending}
    (fits : way.Fits t) : way.Suits past t := by
  have held := (h.sound.fits ht).holdsPacket
  cases way with
  | reported e =>
    cases e with
    | published j ack =>
      cases ack with
      | pubAck a => exact Transaction.isPublish_iff.1 fits.2
      | pubRec a => exact ⟨fits.1, Transaction.isPublish_iff.1 fits.2⟩
      | pubComp a =>
        have released : t.phase = .released := fits
        simp only [Transaction.HoldsPacket, released] at held
        obtain ⟨p, hp, -, hq, -⟩ := held
        exact ⟨⟨p, hp, hq⟩, h.confirmed ht released⟩
    | subscribed a =>
      have phase : t.phase = .subscribing := fits
      simp only [Transaction.HoldsPacket, phase] at held
      obtain ⟨p, hp, -⟩ := held
      exact ⟨p, hp⟩
    | unsubscribed a =>
      have phase : t.phase = .unsubscribing := fits
      simp only [Transaction.HoldsPacket, phase] at held
      obtain ⟨p, hp, -⟩ := held
      exact ⟨p, hp⟩
    | _ => exact fits
  | _ => trivial

theorem Turn.ended_cases {s : Session} {op : Operation} (h : s.Turn op) {t : Transaction}
    {way : Ending} (hw : (t, way) ∈ s.ended op) :
    ∃ k : UInt16, s.outgoing[k]? = some t ∧ way.Fits t := by
  cases h with
  | kept _ ended_eq _ _ => simp [ended_eq] at hw
  | released _ _ _ _ ended_eq _ _ => simp [ended_eq] at hw
  | opened _ _ _ _ ended_eq _ _ => simp [ended_eq] at hw
  | ended ht fits _ ended_eq _ _ =>
    rw [ended_eq, List.mem_singleton] at hw
    cases hw
    exact ⟨_, ht, fits⟩
  | cleaned _ ended_eq _ _ =>
    rw [ended_eq, List.mem_map] at hw
    obtain ⟨u, hu, e⟩ := hw
    cases e
    obtain ⟨k, ht⟩ := mem_transactions_iff.1 hu
    exact ⟨k, ht, trivial⟩

theorem exists_ended_of_news (s : Session) (op : Operation) {e : Event} (he : e ∈ s.news op)
    (ends : e.ended? ≠ none) : ∃ t, (t, .reported e) ∈ s.ended op := by
  by_cases hop : ∃ now p, op = .receive now p
  · obtain ⟨now, p, rfl⟩ := hop
    obtain ⟨s', events, hearing, received⟩ := s.receive_hearing now p
    rw [news_receive received] at he
    cases hearing with
    | passed _ _ quiet _ => exact absurd (quiet e he) ends
    | released => cases he
    | @ended _ e' k t hk ht _ =>
      rw [List.mem_singleton] at he
      subst he
      have found : s.transaction? k = some t := ht
      refine ⟨t, List.mem_append_left _ ?_⟩
      simp [reported, news_receive received, hk, found]
  · rw [news_of_not_receive fun now p e' => hop ⟨now, p, e'⟩] at he
    cases he

/-- The session after a history, seen by what becomes of transactions. Numbers tell them apart. -/
structure EndsOnce (past : List (Session × Operation)) (s : Session) : Prop where
  opened : ∀ now r s' packet, r.Opens → s.send now r = (s', .ok packet) →
    ∃ t, s.opened (.send now r) = [t] ∧ t.packet = packet
  distinct : ((allOpened past).map (·.order)).Nodup
  /-- What was opened is open or ended, and ended once. -/
  balance : ((allOpened past).map (·.order)).Perm ((allEnded past).map (·.1.order) ++ s.orders)
  suits : ∀ op t way, (t, way) ∈ s.ended op → way.Suits past t ∧
    ∃ u ∈ allOpened past, u.order = t.order ∧ u.packet = t.packet
  reported : ∀ op, ∀ e ∈ s.news op, e.ended? ≠ none → ∃ t, (t, .reported e) ∈ s.ended op
  /-- An acknowledgement that ends nothing changes nothing, but a message may be released. -/
  unmoved : ∀ now p, p.isAck = true → s.ended (.receive now p) = [] →
    s.news (.receive now p) = [] ∧ ((s.step (.receive now p)).outgoing = s.outgoing ∨
      ∃ a t, p = .pubRec a ∧ a.reason.isSuccess = true ∧ s.outgoing[a.packetId]? = some t ∧
        t.isPublish .exactlyOnce = true)
  released : ∀ now a t, a.reason.isSuccess = true → s.outgoing[a.packetId]? = some t →
    t.isPublish .exactlyOnce = true →
    (s.step (.receive now (.pubRec a))).outgoing = s.outgoing.insert a.packetId
      { t with phase := .released, retries := 0, lastSent := now }

theorem opened_of_opens {s s' : Session} {now : Time} {r : Request} {packet : Packet}
    (hr : r.Opens) (h : s.send now r = (s', .ok packet)) :
    ∃ t, s.opened (.send now r) = [t] ∧ t.packet = packet := by
  obtain ⟨k, phase, -, -, carries, rfl⟩ := send_of_opens hr h
  refine ⟨⟨k, packet, phase, 0, now, s.lastOrder + 1⟩, ?_, rfl⟩
  simp [opened, h, carries, transaction?, track]

theorem unmoved_of_ended_eq_nil (s : Session) (now : Time) {p : Packet} (ack : p.isAck = true)
    (none : s.ended (.receive now p) = []) :
    s.news (.receive now p) = [] ∧ ((s.step (.receive now p)).outgoing = s.outgoing ∨
      ∃ a t, p = .pubRec a ∧ a.reason.isSuccess = true ∧ s.outgoing[a.packetId]? = some t ∧
        t.isPublish .exactlyOnce = true) := by
  obtain ⟨s', events, hearing, received⟩ := s.receive_hearing now p
  have news := news_receive received
  have outgoing : (s.step (.receive now p)).outgoing = s'.outgoing := by rw [step, received]
  cases hearing with
  | passed outgoing_eq _ _ silent =>
    exact ⟨news.trans (silent ack), .inl (outgoing.trans outgoing_eq)⟩
  | released success ht hq => exact ⟨news, .inr ⟨_, _, rfl, success, ht, hq⟩⟩
  | @ended _ e k t hk ht _ =>
    obtain ⟨u, hu⟩ := s.exists_ended_of_news (.receive now p) (e := e) (by simp [news])
      (by simp [hk])
    simp [none] at hu

theorem ends_once_of_run (maxInflight : UInt16) (ops : List Operation) :
    EndsOnce ((new maxInflight).history ops) ((new maxInflight).run ops) := by
  have traced := traced_of_run maxInflight ops
  constructor
  case opened => exact fun now r s' packet => opened_of_opens
  case distinct => exact (opened_ascending (new_isSound maxInflight) ops).1.imp Nat.ne_of_lt
  case balance =>
    have perm := orders_run (new_isSound maxInflight) ops
    have nothing : (new maxInflight).orders = [] := (orders_perm (new maxInflight)).eq_nil
    rwa [nothing, List.append_nil] at perm
  case suits =>
    intro op t way hw
    obtain ⟨k, ht, fits⟩ := (turn_of_step traced.sound op).ended_cases hw
    exact ⟨traced.suits ht fits, traced.opened ht⟩
  case reported => exact fun op e => exists_ended_of_news _ op
  case unmoved => exact fun now p => unmoved_of_ended_eq_nil _ now
  case released =>
    intro now a t success ht hq
    simp [step, receive, receivePubRec, transaction?, ht, hq, success]

end Session

end MqttClient
