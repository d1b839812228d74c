import MqttClient.Proofs.Engine.Lifetime
import MqttClient.Proofs.Engine.Order

/-! The entry of one filter in the table of subscriptions. On a connection it goes by what was done:
the last request that names the filter sets it, and every answer that fails a subscription of the
filter removes it, whichever subscription the entry came from. Requests name their filters, answers
only their calls, so that an answer counts for the filters of its call. -/

namespace MqttClient

deriving instance DecidableEq for Effect

namespace SubscriptionTable

variable (t : SubscriptionTable HandlerId) (f : String)

def handler? : Option HandlerId := (t.get? f).map (·.handler)

theorem handler?_insertAll (filters : List Filter) (handler : HandlerId) :
    (filters.foldl (·.insert · handler) t).handler? f =
      if f ∈ filters.map (·.path) then some handler else t.handler? f := by
  induction filters generalizing t with
  | nil => simp
  | cons g rest ih =>
    rw [List.foldl_cons, ih]
    by_cases here : g.path = f
    · simp [handler?, get?, insert, here]
    · have other : f ≠ g.path := fun same => here same.symm
      simp [handler?, get?, insert, other, Std.TreeMap.getElem?_insert, here]

theorem get?_eraseAll (paths : List String) :
    (t.eraseAll paths).get? f = if f ∈ paths then none else t.get? f := by
  induction paths generalizing t with
  | nil => simp [eraseAll]
  | cons g rest ih =>
    rw [eraseAll, List.foldl_cons]
    have later := ih (t.erase g)
    rw [eraseAll] at later
    rw [later]
    by_cases here : g = f
    · simp [get?, erase, here]
    · have other : f ≠ g := fun same => here same.symm
      simp [get?, erase, other, Std.TreeMap.getElem?_erase, here]

theorem handler?_eraseAll (paths : List String) :
    (t.eraseAll paths).handler? f = if f ∈ paths then none else t.handler? f := by
  rw [handler?, get?_eraseAll]
  split <;> rfl

end SubscriptionTable

namespace Call

def names (f : String) : Call → Bool
  | publish .. => false
  | subscribe _ p _ => f ∈ p.filters.map (·.path)
  | unsubscribe _ p => f ∈ p.filters

def handler? : Call → Option HandlerId
  | subscribe _ _ handler => some handler
  | _ => none

/-- An answer of the call leaves the filter without an entry. -/
def loses (f : String) : Call → Except ClientError Reply → Bool
  | subscribe _ p _, .ok (.subAck a) =>
    f ∈ Engine.refusedPaths (p.filters.map (·.path)) a.returnCodes
  | subscribe _ p _, .error (.subscribeTimeout _) => f ∈ p.filters.map (·.path)
  | unsubscribe _ p, .error (.session .packetIdsExhausted) => f ∈ p.filters
  | call, .error (.encoding _) => call.names f
  | _, _ => false

theorem loses_of_isPlain {outcome : Except ClientError Reply} (h : Engine.isPlain outcome = true)
    (c : Call) (f : String) : c.loses f outcome = false := by
  unfold loses
  split <;> first | rfl | cases h

end Call

def Packet.names (f : String) : Packet → Bool
  | .subscribe p => f ∈ p.filters.map (·.path)
  | .unsubscribe p => f ∈ p.filters
  | _ => false

def Effect.requests (f : String) : Effect → Bool
  | .write _ packet _ => packet.names f
  | _ => false

namespace Engine

def callOf? (past : List Command) (id : CallId) : Option Call :=
  past.findSome? fun
    | .call call => if call.id = id then some call else none
    | _ => none

def strikes (past : List Command) (f : String) : Effect → Bool
  | .answer id outcome => (callOf? past id).any (·.loses f outcome)
  | _ => false

/-- The entry of a filter after an effect. -/
def turn (past : List Command) (f : String) (entry : Option HandlerId) : Effect → Option HandlerId
  | .write (some id) packet _ =>
    if packet.names f then (callOf? past id).bind Call.handler? else entry
  | .answer id outcome => if (callOf? past id).any (·.loses f outcome) then none else entry
  | _ => entry

variable {past past₁ all : List Command} {e e₁ d m : Engine} {c : Command} {f : String}
  {out : List Effect}

theorem callOf?_eq (nodup : (made past).Nodup) {call : Call} (hm : .call call ∈ past) :
    callOf? past call.id = some call := by
  induction past with
  | nil => cases hm
  | cons c rest ih =>
    rw [callOf?, List.findSome?_cons]
    obtain rfl | later := List.mem_cons.1 hm
    · simp
    · have fresh : ∀ call', c = .call call' → call'.id ≠ call.id := by
        rintro call' rfl same
        change (call'.id :: made rest).Nodup at nodup
        exact (List.nodup_cons.1 nodup).1 (same ▸ mem_made later)
      have less : (made rest).Sublist (made (c :: rest)) :=
        (List.sublist_cons_self c rest).filterMap _
      have found : rest.findSome? _ = _ := ih (nodup.sublist less) later
      cases c with
      | call call' => simpa [fresh call' rfl] using found
      | _ => exact found

/-- Whoever waits or is held back is a call that was made, or a new connection waits for its
subscriptions. -/
structure Known (past : List Command) (e : Engine) : Prop where
  pending : ∀ {k : UInt16} {p : Pending}, e.pending[k]? = some p →
    (∃ call, .call call ∈ past ∧ p = call.pending) ∨ ∃ paths, p = .resubscribe paths
  backlog : ∀ call ∈ e.backlog, .call call ∈ past

theorem Known.offers (h : Known past e) (hc : c ∈ past) {call : Call} (offered : e.Offers c call) :
    .call call ∈ past := by
  obtain rfl | held := offered
  · exact hc
  · exact h.backlog call held

theorem Known.mayWait (h : Known past e) (hc : c ∈ past) {k : UInt16} {p : Pending}
    (waits : e.MayWait c k p) :
    (∃ call, .call call ∈ past ∧ p = call.pending) ∨ ∃ paths, p = .resubscribe paths := by
  obtain old | ⟨call, offered, rfl⟩ | ⟨-, renewed⟩ := waits
  · exact h.pending old
  · exact .inl ⟨call, h.offers hc offered, rfl⟩
  · exact .inr renewed

theorem Known.persists (h : Known past e) (hc : c ∈ past) (persists : Persists c e d) :
    Known past d :=
  ⟨fun hp => h.mayWait hc (persists.pending hp),
    fun call held => h.offers hc (persists.backlog call held)⟩

theorem Known.steps (h : Known past e) (hc : c ∈ past) (steps : Steps c e d) : Known past d := by
  induction steps with
  | refl => exact h
  | tail _ step ih =>
    cases step with
    | does does => exact ih.persists hc does.toPersists
    | links => exact ⟨ih.pending, ih.backlog⟩
    | parts parts =>
      exact ⟨fun hp => ih.mayWait hc (parts.pending hp),
        fun call held => ih.offers hc (parts.backlog call held)⟩

theorem Known.mono (h : Known past e) (le : past ⊆ all) : Known all e := by
  refine ⟨fun hp => ?_, fun call held => le (h.backlog call held)⟩
  obtain ⟨call, hm, hq⟩ | renewed := h.pending hp
  · exact .inl ⟨call, le hm, hq⟩
  · exact .inr renewed

theorem Reachable.known (h : Reachable past e) : Known past e := by
  induction h with
  | start => exact ⟨by simp, by simp⟩
  | @handle past e c reached possible ih =>
    have before : Known (past ++ [c]) e := ih.mono (List.subset_append_left _ _)
    have hc : c ∈ past ++ [c] := by simp
    obtain ⟨m, heard, steps⟩ | parts | ⟨config, p, m, accepted, steps⟩ :=
      reached.progress possible
    · exact (before.persists hc heard.toPersists).steps hc steps
    · exact before.steps hc (.single (.parts parts))
    · have here : Known (past ++ [c]) m := by
        refine ⟨?_, accepted.backlog_eq ▸ before.backlog⟩
        rw [accepted.pending_eq]
        exact before.pending
      exact here.steps hc steps
  | clock _ _ ih => exact ⟨ih.pending, ih.backlog⟩
  | draw _ _ ih => exact ⟨ih.pending, ih.backlog⟩
  | room _ _ ih => exact ⟨ih.pending, ih.backlog⟩
  | abandon _ _ ih => exact ⟨ih.pending, ih.backlog⟩

theorem turn_answer_of_plain {outcome : Except ClientError Reply} (plain : isPlain outcome = true)
    (all : List Command) (f : String) (entry : Option HandlerId) (id : CallId) :
    turn all f entry (.answer id outcome) = entry := by
  rw [turn]
  cases callOf? all id with
  | none => rfl
  | some call => rw [Option.any_some, call.loses_of_isPlain plain]; rfl

theorem foldl_turn_deliver (all : List Command) (f : String) (entry : Option HandlerId)
    (handlers : List HandlerId) (message : Message) :
    (handlers.map fun h => Effect.deliver h message).foldl (turn all f) entry = entry := by
  induction handlers with
  | nil => rfl
  | cons h rest ih => exact ih

theorem turn_answer (nodup : (made all).Nodup) {call : Call} (hm : .call call ∈ all) {id : CallId}
    (hid : call.id = id) (entry : Option HandlerId) (outcome : Except ClientError Reply) :
    turn all f entry (.answer id outcome) = if call.loses f outcome then none else entry := by
  rw [turn, ← hid, callOf?_eq nodup hm]
  rfl

theorem mem_of_mem_refusedPaths {paths : List String} {codes : List SubscribeReason}
    (h : f ∈ refusedPaths paths codes) : f ∈ paths := by
  simp only [refusedPaths, List.mem_map, List.mem_filter] at h
  obtain ⟨entry, ⟨paired, -⟩, rfl⟩ := h
  exact (List.of_mem_zip paired).1

theorem Deed.handler?_eq {t : SubscriptionTable HandlerId} (h : Deed c m out t)
    (other : ¬ c.IsConnAck) (known : Known all m) (hc : c ∈ all) (nodup : (made all).Nodup)
    (unrenewed : ∀ (k : UInt16) paths, m.pending[k]? = some (.resubscribe paths) → f ∉ paths) :
    t.handler? f = out.foldl (turn all f) (m.subscriptions.handler? f) := by
  have waiting : ∀ {k : UInt16} {id : CallId} {paths : List String},
      m.pending[k]? = some (.subscribe id paths) → ∃ p handler,
        .call (.subscribe id p handler) ∈ all ∧ paths = p.filters.map (·.path) := by
    intro k id paths hp
    obtain ⟨call, hm, he⟩ | ⟨paths', he⟩ := known.pending hp
    · cases call with
      | subscribe => cases he; exact ⟨_, _, hm, rfl⟩
      | publish | unsubscribe => cases he
    · cases he
  cases h with
  | quiet => rfl
  | answers plain => exact (turn_answer_of_plain plain all f _ _).symm
  | delivers p => exact (foldl_turn_deliver all f _ _ _).symm
  | @writes call packet bytes subscribes =>
    have unnamed : packet.names f = false := by
      cases packet with
      | subscribe | unsubscribe => cases subscribes
      | _ => rfl
    cases call <;> simp [turn, unnamed]
  | @sends call packet bytes offered carries =>
    have hm := known.offers hc offered
    have found := callOf?_eq nodup hm
    rw [List.foldl_cons, List.foldl_nil, turn, found]
    cases call with
    | publish id p =>
      obtain ⟨k, dup, rfl, -⟩ := carries
      rfl
    | subscribe id p handler =>
      obtain ⟨k, rfl⟩ := carries
      rw [Call.enter, SubscriptionTable.handler?_insertAll]
      simp [Packet.names, Call.handler?]
    | unsubscribe id p =>
      obtain ⟨k, rfl⟩ := carries
      rw [Call.enter, SubscriptionTable.handler?_eraseAll]
      simp [Packet.names, Call.handler?]
  | @withdraws call err offered =>
    rw [List.foldl_cons, List.foldl_nil, turn_answer nodup (known.offers hc offered) rfl]
    cases call with
    | publish id p => rfl
    | subscribe id p handler =>
      rw [Call.withdraw, Call.pending, Pending.leave, SubscriptionTable.handler?_eraseAll,
        Call.enter, SubscriptionTable.handler?_insertAll]
      simp only [Call.loses, Call.names, decide_eq_true_eq]
      split <;> simp_all
    | unsubscribe id p =>
      have left : (Call.unsubscribe id p).withdraw m.subscriptions
        = m.subscriptions.eraseAll p.filters := rfl
      rw [left, SubscriptionTable.handler?_eraseAll]
      simp [Call.loses, Call.names]
  | @forgoes call offered =>
    rw [List.foldl_cons, List.foldl_nil, turn_answer nodup (known.offers hc offered) rfl]
    cases call with
    | publish | subscribe => rfl
    | unsubscribe id p =>
      rw [Call.forgo, SubscriptionTable.handler?_eraseAll]
      simp [Call.loses]
  | @granted id paths p waits =>
    obtain ⟨q, handler, hm, rfl⟩ := waiting waits
    have caller : (Call.subscribe id q handler).id = id := rfl
    rw [List.foldl_cons, List.foldl_nil, turn_answer nodup hm caller,
      SubscriptionTable.handler?_eraseAll]
    simp [Call.loses]
  | @regranted paths p waits =>
    have spared : f ∉ refusedPaths paths p.returnCodes :=
      fun refused => unrenewed _ _ waits (mem_of_mem_refusedPaths refused)
    rw [SubscriptionTable.handler?_eraseAll, if_neg spared]
    rfl
  | @expires id paths k waits =>
    obtain ⟨q, handler, hm, rfl⟩ := waiting waits
    have caller : (Call.subscribe id q handler).id = id := rfl
    rw [List.foldl_cons, List.foldl_nil, turn_answer nodup hm caller,
      SubscriptionTable.handler?_eraseAll]
    simp [Call.loses]
  | replays accepts => exact absurd accepts other
  | renews accepts => exact absurd accepts other

/-- What holds on a connection: the entry of the filter goes by the effects since `e₁`. -/
structure Follows (f : String) (e₁ : Engine) (past : List Command) (e : Engine) : Prop where
  known : Known past e
  unrenewed : ∀ (k : UInt16) paths, e.pending[k]? = some (.resubscribe paths) → f ∉ paths
  entry : ∃ out, e.effects = e₁.effects ++ out ∧ ∀ all, past ⊆ all → (made all).Nodup →
    e.subscriptions.handler? f = out.foldl (turn all f) (e₁.subscriptions.handler? f)

theorem Follows.hears (h : Follows f e₁ past e) (heard : Hears c e m) :
    Follows f e₁ (past ++ [c]) m where
  known := (h.known.mono (List.subset_append_left _ _)).persists (by simp) heard.toPersists
  unrenewed := heard.pending_eq ▸ h.unrenewed
  entry := by
    obtain ⟨out, he, entry⟩ := h.entry
    refine ⟨out, heard.effects_eq.trans he, fun all le nodup => ?_⟩
    rw [heard.subscriptions_eq]
    exact entry all (fun _ hm => le (List.mem_append_left _ hm)) nodup

theorem Follows.does (h : Follows f e₁ past m) (hc : c ∈ past) (other : ¬ c.IsConnAck)
    (did : Does c m out d) : Follows f e₁ past d where
  known := h.known.persists hc did.toPersists
  unrenewed k paths hp := by
    obtain old | ⟨call, -, he⟩ | ⟨renews, -⟩ := did.pending hp
    · exact h.unrenewed k paths old
    · cases call <;> cases he
    · exact absurd renews other
  entry := by
    obtain ⟨before, he, entry⟩ := h.entry
    refine ⟨before ++ out, by rw [did.effects_eq, he, List.append_assoc], fun all le nodup => ?_⟩
    rw [List.foldl_append, ← entry all le nodup]
    exact did.deed.handler?_eq other (h.known.mono le) (le hc) nodup h.unrenewed

theorem Follows.drift (h : Follows f e₁ past e) (drifts : Drifts e d) : Follows f e₁ past d := by
  obtain ⟨known, unrenewed, entry⟩ := h
  cases drifts <;> exact ⟨⟨known.pending, known.backlog⟩, unrenewed, entry⟩

theorem kept_follows (f : String) (e₁ : Engine) : Kept (¬ ·.IsConnAck) (Follows f e₁) where
  hears _ _ _ here heard := here.hears heard
  does hc other here did := here.does hc other did
  links _ here _ := ⟨⟨here.known.pending, here.known.backlog⟩, here.unrenewed, here.entry⟩
  drift here drifts := here.drift drifts

theorem foldl_turn_eq {post : List Effect} (last : ∀ x ∈ post, x.requests f = false)
    (entry : Option HandlerId) :
    post.foldl (turn all f) entry = if post.any (strikes all f) then none else entry := by
  induction post generalizing entry with
  | nil => rfl
  | cons x rest ih =>
    have later := ih fun y hy => last y (List.mem_cons_of_mem x hy)
    have quiet := last x List.mem_cons_self
    have turned : turn all f entry x = if strikes all f x then none else entry := by
      cases x with
      | write id packet bytes =>
        cases id with
        | none => rfl
        | some id => simp only [turn, show packet.names f = false from quiet]; rfl
      | answer => rfl
      | _ => rfl
    rw [List.foldl_cons, later, turned, List.any_cons]
    cases strikes all f x <;> simp

/-- On a connection that is not waiting to subscribe to the filter anew, once the last request that
names it is the subscription of a call, the messages of the filter go to the handler of that call,
unless an answer strikes the filter: its own refusal or any other answer that fails a request for
the filter, also that of an earlier call. -/
theorem handler?_eq_iff {past₁ past : List Command} {e₁ e : Engine} {f : String}
    (run : Reachable past₁ e₁) (connected : e₁.session.connection = .connected)
    (unrenewed : ∀ (k : UInt16) paths, e₁.pending[k]? = some (.resubscribe paths) → f ∉ paths)
    (leads : Leads past₁ e₁ past e) (same : e.epoch = e₁.epoch) {pre post : List Effect}
    {id : CallId} {p q : Subscribe} {handler : HandlerId} {bytes : Bytes}
    (wrote : e.effects = e₁.effects ++ pre ++ .write (some id) (.subscribe p) bytes :: post)
    (named : f ∈ p.filters.map (·.path)) (call : .call (.subscribe id q handler) ∈ past)
    (last : ∀ x ∈ post, x.requests f = false) :
    e.subscriptions.handler? f = some handler ↔ ∀ x ∈ post, strikes past f x = false := by
  have start : Follows f e₁ past₁ e₁ :=
    ⟨run.known, unrenewed, [], (List.append_nil _).symm, fun _ _ _ => rfl⟩
  have follows : Follows f e₁ past e :=
    (leads.on_connection run connected same start (kept_follows f e₁)).1
  obtain ⟨out, he, entry⟩ := follows.entry
  have nodup := (leads.reachable run).nodup_made
  have split : out = pre ++ .write (some id) (.subscribe p) bytes :: post := by
    rw [he, List.append_assoc] at wrote
    exact List.append_cancel_left wrote
  have granted : turn past f (pre.foldl (turn past f) (e₁.subscriptions.handler? f))
      (.write (some id) (.subscribe p) bytes) = some handler := by
    have found : callOf? past id = _ := callOf?_eq nodup call
    have names : (Packet.subscribe p).names f = true := decide_eq_true named
    rw [turn, if_pos names, found]
    rfl
  rw [entry past (List.Subset.refl _) nodup, split, List.foldl_append, List.foldl_cons, granted,
    foldl_turn_eq last]
  cases struck : post.any (strikes past f) with
  | true =>
    obtain ⟨x, hx, hit⟩ := List.any_eq_true.1 struck
    simp only [if_true, reduceCtorEq, false_iff]
    intro spared
    cases hit.symm.trans (spared x hx)
  | false => simpa using struck

def admission : List Command :=
  [.connect 0 { clientId := "", host := "h", port := 1883,
                one_le_inflight := Config.one_le_hundred },
    .opened 1 (.ok none), .incoming 1 (.connAck { sessionPresent := false, code := .success })]

def wanted : Subscribe := { filters := [{ path := "a", qos := .atMostOnce }] }

def grant : SubAck := { packetId := 2, returnCodes := [.success .atMostOnce] }

/-- Two calls subscribe to one filter. The broker grants the second, and then it refuses the
first. -/
def contested : List Command :=
  [.call (.subscribe 1 wanted 0), .call (.subscribe 2 wanted 1), .incoming 1 (.subAck grant),
    .incoming 1 (.subAck { packetId := 1, returnCodes := [.notAuthorized] })]

def contestedBefore : List Effect :=
  ((contested.take 1).foldl handle (admission.foldl handle {})).effects.drop
    (admission.foldl handle {}).effects.length

def contestedAfter : List Effect :=
  ((contested.foldl handle (admission.foldl handle {})).effects).drop
    ((contested.take 2).foldl handle (admission.foldl handle {})).effects.length

theorem reachable_admission : Reachable admission (admission.foldl handle {}) :=
  reachable_of_isRun (by decide +kernel)

theorem leads_contested :
    Leads admission (admission.foldl handle {}) (admission ++ contested)
      (contested.foldl handle (admission.foldl handle {})) :=
  Leads.refl.append (by decide +kernel)

theorem effects_contested :
    (contested.foldl handle (admission.foldl handle {})).effects =
      (admission.foldl handle {}).effects ++ contestedBefore ++
        .write (some 2) (.subscribe { wanted with packetId := 2 })
          [130, 7, 0, 2, 0, 0, 1, 97, 0] :: contestedAfter := by
  decide +kernel

theorem unrenewed_admission (k : UInt16) (paths : List String) :
    (admission.foldl handle {}).pending[k]? = some (.resubscribe paths) → "a" ∉ paths := by
  have nobody : (admission.foldl handle {}).pending.isEmpty = true := by decide +kernel
  intro hp
  cases (Std.TreeMap.getElem?_of_isEmpty nobody).symm.trans hp

theorem handler?_contested :
    (∀ x ∈ contestedAfter, x.requests "a" = false) ∧
      ((contested.foldl handle (admission.foldl handle {})).subscriptions.handler? "a" = some 1 ↔
        ∀ x ∈ contestedAfter, strikes (admission ++ contested) "a" x = false) := by
  have last : ∀ x ∈ contestedAfter, x.requests "a" = false := by decide +kernel
  have call : .call (.subscribe 2 wanted 1) ∈ admission ++ contested := by simp [contested]
  exact ⟨last, handler?_eq_iff reachable_admission (by decide +kernel) unrenewed_admission
    leads_contested (by decide +kernel) effects_contested (by simp [wanted]) call last⟩

/-- The last subscription is granted, and an earlier one that is refused takes its entry away. -/
theorem not_handler?_eq :
    ¬ ∀ past₁ past e₁ e f pre post id p q handler bytes a,
      Reachable past₁ e₁ → e₁.session.connection = .connected →
      (∀ (k : UInt16) paths, e₁.pending[k]? = some (.resubscribe paths) → f ∉ paths) →
      Leads past₁ e₁ past e → e.epoch = e₁.epoch →
      e.effects = e₁.effects ++ pre ++ .write (some id) (.subscribe p) bytes :: post →
      f ∈ p.filters.map (·.path) → .call (.subscribe id q handler) ∈ past →
      (∀ x ∈ post, x.requests f = false) → .answer id (.ok (.subAck a)) ∈ post →
      a.returnCodes.length = q.filters.length → (∀ code ∈ a.returnCodes, code.isSuccess = true) →
      e.subscriptions.handler? f = some handler := by
  intro always
  have kept := always admission (admission ++ contested) _ _ "a" contestedBefore contestedAfter 2
    { wanted with packetId := 2 } wanted 1 [130, 7, 0, 2, 0, 0, 1, 97, 0] grant
    reachable_admission (by decide +kernel) unrenewed_admission leads_contested
    (by decide +kernel) effects_contested (by simp [wanted]) (by simp [contested])
    (by decide +kernel) (by decide +kernel) (by decide) (by decide)
  have gone : (contested.foldl handle (admission.foldl handle {})).subscriptions.handler? "a"
    = none := by decide +kernel
  cases gone.symm.trans kept

end Engine

end MqttClient
