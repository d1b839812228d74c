import MqttClient.Proofs.Engine.Steps

/-! How many transactions are open at once. A request is sent only while there is room, so that the
window is kept on the first connection and no call waits for room that there is. A later connection
takes up what was open and makes the subscriptions anew, whether or not that fits the window; what
is more than the window then only goes down. -/

namespace MqttClient.Engine

variable {past past₀ : List Command} {e e₀ d : Engine} {c : Command} {config : Config} {p : ConnAck}

theorem inflight_lt_of_room (h : e.session.isFull = false) :
    e.session.inflight < e.session.maxInflight.toNat := by
  simpa [Session.isFull] using h

theorem Keeps.maxInflight_eq (h : Keeps e d) (hc : d.session.connection = .connected) :
    d.session.maxInflight = e.session.maxInflight :=
  congrArg Terms.maxInflight (h.terms_eq (.inl hc))

theorem Rests.isFull_eq (h : Rests e d) (hc : d.session.connection = .connected) :
    d.session.isFull = e.session.isFull := by
  rw [Session.isFull, h.maxInflight_eq hc, h.inflight_eq hc, Session.isFull]

theorem inflight_drainBacklog (hc : e.drainBacklog.session.connection = .connected) :
    e.drainBacklog.session.inflight ≤ max e.session.maxInflight.toNat e.session.inflight := by
  let within : Engine → Prop := fun d => Keeps e d ∧ (d.session.connection = .connected →
    d.session.inflight ≤ max e.session.maxInflight.toNat e.session.inflight)
  have drained : within e.drainBacklog := by
    refine drainLoop_induction (motive := within) e.backlog.length
      ⟨.refl e, fun _ => Nat.le_max_right _ _⟩ ?_
    rintro d c rest ⟨kept, le⟩ hd room -
    refine ⟨kept.trans (d.keeps_sendCall c rest), fun _ => ?_⟩
    have lt := inflight_lt_of_room room
    rw [kept.maxInflight_eq hd] at lt
    have sent : (({ d with backlog := rest } : Engine).sendCall c).session.inflight
        ≤ d.session.inflight + 1 := by
      obtain rests | ⟨-, grows⟩ := ({ d with backlog := rest } : Engine).sendCall_cases c
      · exact Nat.le_succ_of_le rests.inflight_le
      · exact grows.inflight_le
    omega
  exact drained.2 hc

theorem inflight_request (c : Call) (hc : (e.request c false).session.connection = .connected) :
    (e.request c false).session.inflight
      ≤ max e.session.maxInflight.toNat e.session.inflight := by
  obtain rests | ⟨-, room, -, grows⟩ | ⟨-, -, held⟩ := e.request_cases c
  · rw [rests.inflight_eq hc]
    exact Nat.le_max_right _ _
  · have lt := inflight_lt_of_room room
    have le := grows.inflight_le
    omega
  · rw [held]
    exact Nat.le_max_right _ _

/-- What a new connection finds open: nothing if it is the first, and otherwise what was open
before, with one transaction more if there are subscriptions to be made anew. -/
def carried (e : Engine) : Nat :=
  if e.connectCall.isSome then 0
  else e.session.inflight + if e.subscriptions.isEmpty then 0 else 1

/-- The run goes on over the connection that the broker accepted with `p`, after the run to `e₀`. -/
structure Lasts (past₀ : List Command) (e₀ : Engine) (config : Config) (p : ConnAck)
    (past : List Command) (e : Engine) : Prop where
  reachable : Reachable past₀ e₀
  connecting : e₀.session.connection = .connecting
  success : p.code = .success
  possible : Possible past₀ e₀ (.incoming e₀.epoch (.connAck p))
  leads : Leads (past₀ ++ [.incoming e₀.epoch (.connAck p)])
    (e₀.handle (.incoming e₀.epoch (.connAck p))) past e
  epoch_eq : e.epoch = e₀.epoch
  config_eq : e.config = some config
  maxInflight_eq : e.session.maxInflight = agreedInflight config p

def Windowed (past : List Command) (e : Engine) : Prop :=
  ∃ past₀ e₀ config p, Lasts past₀ e₀ config p past e ∧
    e.session.inflight ≤ max (agreedInflight config p).toNat e₀.carried

theorem Keeps.epoch_eq (h : Keeps e d) (hc : d.session.connection = .connected) :
    d.epoch = e.epoch :=
  congrArg Terms.epoch (h.terms_eq (.inl hc))

theorem Lasts.handle (h : Lasts past₀ e₀ config p past e) (possible : Possible past e c)
    (keeps : Keeps e (e.handle c)) (hc : (e.handle c).session.connection = .connected) :
    Lasts past₀ e₀ config p (past ++ [c]) (e.handle c) :=
  { h with
    leads := h.leads.handle possible
    epoch_eq := (keeps.epoch_eq hc).trans h.epoch_eq
    config_eq := keeps.config_eq.trans h.config_eq
    maxInflight_eq := (keeps.maxInflight_eq hc).trans h.maxInflight_eq }

theorem Lasts.drift (h : Lasts past₀ e₀ config p past e) (drifts : Drifts e d)
    (hc : d.session.connection = .connected) : Lasts past₀ e₀ config p past d :=
  { h with
    leads := h.leads.drift drifts
    epoch_eq := (drifts.rests.epoch_eq hc).trans h.epoch_eq
    config_eq := drifts.rests.config_eq.trans h.config_eq
    maxInflight_eq := (drifts.rests.maxInflight_eq hc).trans h.maxInflight_eq }

theorem Windowed.handle (h : Windowed past e) (possible : Possible past e c)
    (keeps : Keeps e (e.handle c)) (hc : (e.handle c).session.connection = .connected)
    (le : (e.handle c).session.inflight ≤ max e.session.maxInflight.toNat e.session.inflight) :
    Windowed (past ++ [c]) (e.handle c) := by
  obtain ⟨past₀, e₀, config, p, lasts, bound⟩ := h
  refine ⟨past₀, e₀, config, p, lasts.handle possible keeps hc, ?_⟩
  rw [lasts.maxInflight_eq] at le
  omega

theorem Opens.lasts {m : Engine} (h : Opens config p e m) (reached : Reachable past e)
    (possible : Possible past e (.incoming e.epoch (.connAck p))) (success : p.code = .success)
    (keeps : Keeps m (e.handle (.incoming e.epoch (.connAck p))))
    (hc : (e.handle (.incoming e.epoch (.connAck p))).session.connection = .connected) :
    Lasts past e config p (past ++ [.incoming e.epoch (.connAck p)])
      (e.handle (.incoming e.epoch (.connAck p))) where
  reachable := reached
  connecting := h.connecting
  success
  possible
  leads := .refl
  epoch_eq := (keeps.epoch_eq hc).trans h.epoch_eq
  config_eq := keeps.config_eq.trans (h.config_eq.trans h.configured)
  maxInflight_eq := (keeps.maxInflight_eq hc).trans h.maxInflight_eq

theorem keeps_resubscribe (e : Engine) : Keeps e e.resubscribe := by
  obtain rests | ⟨-, grows⟩ := e.resubscribe_cases
  · exact rests.toKeeps
  · exact grows.toKeeps

theorem inflight_resubscribe (e : Engine) : e.resubscribe.session.inflight
    ≤ e.session.inflight + if e.subscriptions.isEmpty then 0 else 1 := by
  obtain rests | ⟨filled, grows⟩ := e.resubscribe_cases
  · exact Nat.le_add_right_of_le rests.inflight_le
  · rw [filled]
    exact grows.inflight_le

theorem Course.connected_cases (h : Course e c d) (hc : d.session.connection = .connected) :
    (Keeps e d ∧ d.session.inflight ≤ max e.session.maxInflight.toNat e.session.inflight) ∨
    ∃ config p m, c = .incoming e.epoch (.connAck p) ∧ p.code = .success ∧ Opens config p e m ∧
      Keeps m d ∧ d.session.inflight ≤ max m.session.maxInflight.toNat e.carried := by
  cases h with
  | rests rests =>
    refine .inl ⟨rests.toKeeps, ?_⟩
    rw [rests.inflight_eq hc]
    exact Nat.le_max_right _ _
  | @drained m _ recedes rests =>
    have drained := rests.connection_eq (.inl hc) ▸ hc
    have here := m.keeps_drainBacklog.connection_eq (.inl drained) ▸ drained
    refine .inl ⟨recedes.toKeeps.trans (m.keeps_drainBacklog.trans rests.toKeeps), ?_⟩
    have le := inflight_drainBacklog drained
    rw [recedes.maxInflight_eq here] at le
    have fewer := recedes.inflight_le
    rw [rests.inflight_eq hc]
    omega
  | @requested call _ => exact .inl ⟨e.keeps_request call, inflight_request call hc⟩
  | attempted attempts => cases attempts.connecting.symm.trans hc
  | @greeted config p m _ hcall success _ empty opens _ rests =>
    refine .inr ⟨config, p, m, hcall, success, opens, rests.toKeeps, ?_⟩
    rw [rests.inflight_eq hc]
    have le := opens.inflight_le
    omega
  | @resumed config p m _ hcall success unasked opens _ rests =>
    have drained := rests.connection_eq (.inl hc) ▸ hc
    have here := (keeps_drainBacklog _).connection_eq (.inl drained) ▸ drained
    refine .inr ⟨config, p, m, hcall, success, opens,
      m.keeps_resubscribe.trans ((keeps_drainBacklog _).trans rests.toKeeps), ?_⟩
    have le := inflight_drainBacklog drained
    have resubscribed := m.inflight_resubscribe
    have kept := opens.inflight_le
    rw [m.keeps_resubscribe.maxInflight_eq here] at le
    rw [rests.inflight_eq hc, carried, unasked]
    rw [opens.subscriptions_eq] at resubscribed
    simp only [Option.isSome_none, Bool.false_eq_true, if_false]
    omega

theorem Reachable.windowed (h : Reachable past e) (hc : e.session.connection = .connected) :
    Windowed past e := by
  induction h using Reachable.course_induction with
  | start => cases hc
  | drift reached drifts ih =>
    have rests := drifts.rests
    obtain ⟨past₀, e₀, config, p, lasts, bound⟩ := ih (rests.connection_eq (.inl hc) ▸ hc)
    exact ⟨past₀, e₀, config, p, lasts.drift drifts hc, rests.inflight_eq hc ▸ bound⟩
  | handle reached possible course ih =>
    obtain ⟨keeps, le⟩ | ⟨config, p, m, rfl, success, opens, keeps, le⟩ := course.connected_cases hc
    · exact (ih (keeps.connection_eq (.inl hc) ▸ hc)).handle possible keeps hc le
    · have lasts := opens.lasts reached possible success keeps hc
      exact ⟨_, _, config, p, lasts, opens.maxInflight_eq ▸ le⟩

theorem Reachable.inflight_handle_le (h : Reachable past e)
    (hc : e.session.connection = .connected) (c : Command)
    (hd : (e.handle c).session.connection = .connected) :
    (e.handle c).session.inflight ≤ max e.session.maxInflight.toNat e.session.inflight := by
  obtain ⟨-, le⟩ | ⟨config, p, m, -, -, opens, -⟩ :=
    (h.accounted.settled.course c).connected_cases hd
  · exact le
  · cases hc.symm.trans opens.connecting

/-- The smaller of what the configuration allows and what the broker is ready to receive. -/
def window (config : Config) (p : ConnAck) : Nat :=
  match Properties.receiveMaximum? p.properties with
  | some most => min config.inflight.toNat (max most.toNat 1)
  | none => config.inflight.toNat

theorem toNat_agreedInflight (config : Config) (p : ConnAck) :
    (agreedInflight config p).toNat = window config p := by
  have toNat_min : ∀ a b : UInt16, (min a b).toNat = min a.toNat b.toNat := by
    intro a b
    rw [Nat.min_def, show min a b = if a ≤ b then a else b from rfl]
    simp only [UInt16.le_iff_toNat_le]
    split <;> rfl
  have toNat_max : ∀ a b : UInt16, (max a b).toNat = max a.toNat b.toNat := by
    intro a b
    rw [Nat.max_def, show max a b = if a ≤ b then b else a from rfl]
    simp only [UInt16.le_iff_toNat_le]
    split <;> rfl
  unfold agreedInflight window
  cases Properties.receiveMaximum? p.properties with
  | none => rfl
  | some most =>
    dsimp only
    rw [toNat_min, toNat_max]
    rfl

theorem one_le_window (config : Config) (p : ConnAck) : 1 ≤ window config p := by
  have configured := UInt16.le_iff_toNat_le.1 config.one_le_inflight
  have one : (1 : UInt16).toNat = 1 := rfl
  unfold window
  split <;> omega

/-- The first connection keeps to the window; any later one exceeds it by no more than what it took
up of the one before and a transaction for the subscriptions made anew, and what is more than the
window only goes down. -/
theorem inflight_le_of_reachable {past : List Command} {e : Engine} (h : Reachable past e)
    (hc : e.session.connection = .connected) :
    ∃ past₀ e₀ config p, Lasts past₀ e₀ config p past e ∧ (∃ call, .connect call config ∈ past) ∧
      e.session.maxInflight.toNat = window config p ∧
      e.session.inflight ≤ max (window config p) e₀.carried ∧
      ∀ c, (e.handle c).session.connection = .connected →
        (e.handle c).session.inflight ≤ max (window config p) e.session.inflight := by
  obtain ⟨past₀, e₀, config, p, lasts, bound⟩ := h.windowed hc
  have agreed := toNat_agreedInflight config p
  have used : e.session.maxInflight.toNat = window config p :=
    (congrArg UInt16.toNat lasts.maxInflight_eq).trans agreed
  exact ⟨past₀, e₀, config, p, lasts, h.configured lasts.config_eq, used, agreed ▸ bound,
    used ▸ h.inflight_handle_le hc⟩

def crowded : List Command :=
  [.connect 0 { clientId := "", host := "h", port := 1883, inflight := 1, reconnect := some {} },
    .opened 1 (.ok none), .incoming 1 (.connAck { sessionPresent := false, code := .success }),
    .call (.subscribe 1 { filters := [{ path := "a", qos := .atMostOnce }] } 0),
    .networkDown 1 .connectionClosed, .timer .reconnect 4, .opened 3 (.ok none),
    .incoming 3 (.connAck { sessionPresent := false, code := .success })]

theorem reachable_crowded : Reachable crowded (crowded.foldl handle {}) :=
  reachable_of_isRun (by decide +kernel)

theorem inflight_le_crowded :
    let e := crowded.foldl handle {}
    e.session.connection = .connected ∧
      ∃ past₀ e₀ config p, Lasts past₀ e₀ config p crowded e ∧
        (∃ call, .connect call config ∈ crowded) ∧
        e.session.maxInflight.toNat = window config p ∧
        e.session.inflight ≤ max (window config p) e₀.carried ∧
        ∀ c, (e.handle c).session.connection = .connected →
          (e.handle c).session.inflight ≤ max (window config p) e.session.inflight := by
  have connected : (crowded.foldl handle {}).session.connection = .connected := by decide +kernel
  exact ⟨connected, inflight_le_of_reachable reachable_crowded connected⟩

/-- The subscription is sent again and made anew, with a window of one. -/
theorem not_inflight_le_window :
    ¬ ∀ past e, Reachable past e → e.session.connection = .connected →
      e.session.inflight ≤ e.session.maxInflight.toNat := by
  intro within
  have le := within crowded (crowded.foldl handle {}) reachable_crowded (by decide +kernel)
  have two : (crowded.foldl handle {}).session.inflight = 2 := by decide +kernel
  have one : (crowded.foldl handle {}).session.maxInflight = 1 := by decide +kernel
  rw [two, one] at le
  exact absurd le (by decide)

/-- The room is used up or nothing waits for it, and nothing waits for a first connection. -/
structure Tight (e : Engine) : Prop where
  full : e.session.connection = .connected → e.session.isFull = true ∨ e.backlog = []
  idle : e.session.connection = .connecting → e.supervisor = none → e.backlog = []

theorem Keeps.supervisor_eq (h : Keeps e d) (lives : d.Lives) : d.supervisor = e.supervisor :=
  congrArg Terms.supervisor (h.terms_eq lives)

theorem Tight.idle_of_recedes (h : Tight e) (r : Recedes e d)
    (hd : d.session.connection = .connecting) (hs : d.supervisor = none) : d.backlog = [] := by
  have empty := h.idle (r.connection_eq (.inr hd) ▸ hd) (r.supervisor_eq (.inr hd) ▸ hs)
  exact List.sublist_nil.1 (empty ▸ r.backlog)

theorem Tight.rests (h : Tight e) (r : Rests e d) : Tight d where
  full hd := by
    rw [r.isFull_eq hd]
    refine (h.full (r.connection_eq (.inl hd) ▸ hd)).imp_right fun empty => ?_
    exact List.sublist_nil.1 (empty ▸ r.backlog)
  idle := h.idle_of_recedes r.toRecedes

theorem tight_drainBacklog
    (idle : e.session.connection = .connecting → e.supervisor = none → e.backlog = []) :
    Tight e.drainBacklog where
  full := isFull_drainLoop e.backlog.length (Nat.le_refl _)
  idle hd hs := by
    have kept := e.keeps_drainBacklog
    have empty := idle (kept.connection_eq (.inr hd) ▸ hd) (kept.supervisor_eq (.inr hd) ▸ hs)
    rw [drainBacklog, empty]
    exact empty

theorem Tight.request (h : Tight e) (c : Call) : Tight (e.request c false) := by
  obtain rests | ⟨hc, -, empty, grows⟩ | ⟨room, planned, held⟩ := e.request_cases c
  · exact h.rests rests
  · have none : (e.request c false).backlog = [] := List.sublist_nil.1 (empty ▸ grows.backlog)
    exact ⟨fun _ => .inr none, fun _ _ => none⟩
  · rw [held]
    refine ⟨fun hc => .inl ?_, fun hc hs => ?_⟩
    · exact (room hc).elim id fun waiting => (h.full hc).resolve_right waiting
    · have plan := planned fun connected => by cases hc.symm.trans connected
      rw [show e.supervisor = none from hs] at plan
      cases plan

theorem Tight.course {w : World} {owed : CallId → Nat} (h : Tight e) (settled : Settled w owed e)
    (course : Course e c d) : Tight d := by
  cases course with
  | rests rests => exact h.rests rests
  | drained recedes rests => exact (tight_drainBacklog (h.idle_of_recedes recedes)).rests rests
  | @requested call _ => exact h.request call
  | attempted attempts =>
    refine ⟨fun hc => (by cases attempts.connecting.symm.trans hc), fun _ hs => ?_⟩
    have idle := settled.posture.idle attempts.disconnected (attempts.supervisor_eq.symm.trans hs)
    exact List.sublist_nil.1 (idle.2 ▸ attempts.backlog)
  | greeted _ _ waiting _ opens _ rests =>
    have empty := h.idle opens.connecting (settled.ledger.supervisor_eq waiting)
    have none := List.sublist_nil.1 (empty ▸ rests.backlog.trans opens.backlog)
    exact ⟨fun _ => .inr none, fun _ _ => none⟩
  | @resumed _ _ m _ _ _ _ opens _ rests =>
    refine (tight_drainBacklog fun hc _ => ?_).rests rests
    have here := m.keeps_resubscribe.connection_eq (.inr hc) ▸ hc
    cases opens.connected.symm.trans here

theorem Reachable.tight (h : Reachable past e) : Tight e := by
  induction h using Reachable.course_induction with
  | start => exact ⟨nofun, nofun⟩
  | handle reached _ course ih => exact ih.course reached.accounted.settled course
  | drift _ drifts ih => exact ih.rests drifts.rests

theorem full_of_reachable {past : List Command} {e : Engine} (h : Reachable past e)
    (hc : e.session.connection = .connected) (waiting : e.backlog ≠ []) :
    e.session.maxInflight.toNat ≤ e.session.inflight ∧ 1 ≤ e.session.inflight := by
  have full := (h.tight.full hc).resolve_right waiting
  rw [Session.isFull, decide_eq_true_eq] at full
  obtain ⟨past₀, e₀, config, p, lasts, -⟩ := h.windowed hc
  have one := one_le_window config p
  rw [← toNat_agreedInflight, ← lasts.maxInflight_eq] at one
  exact ⟨full, Nat.le_trans one full⟩

def congested : List Command :=
  [.connect 0 { clientId := "", host := "h", port := 1883, inflight := 1 }, .opened 1 (.ok none),
    .incoming 1 (.connAck { sessionPresent := false, code := .success }),
    .call (.publish 1 { qos := .atLeastOnce, topic := "a", payload := [] }),
    .call (.publish 2 { qos := .atLeastOnce, topic := "a", payload := [] })]

theorem reachable_congested : Reachable congested (congested.foldl handle {}) :=
  reachable_of_isRun (by decide +kernel)

theorem full_congested :
    let e := congested.foldl handle {}
    e.session.connection = .connected ∧ e.backlog ≠ [] ∧
      e.session.maxInflight.toNat ≤ e.session.inflight ∧ 1 ≤ e.session.inflight := by
  have connected : (congested.foldl handle {}).session.connection = .connected := by decide +kernel
  have held : (congested.foldl handle {}).backlog ≠ [] := by
    have nonempty : (congested.foldl handle {}).backlog.isEmpty = false := by decide +kernel
    exact List.isEmpty_eq_false_iff.1 nonempty
  exact ⟨connected, held, full_of_reachable reachable_congested connected held⟩

end MqttClient.Engine
