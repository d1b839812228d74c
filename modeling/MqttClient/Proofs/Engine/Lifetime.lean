import MqttClient.Proofs.Engine.Progress
import MqttClient.Proofs.Engine.Window

/-! A connection, from its acceptance to its loss. Whatever ends it raises the epoch, so that what
holds while the epoch lasts is shown by going through the deeds of its commands, one by one. -/

namespace MqttClient.Engine

variable {past past₀ past₁ : List Command} {e e₀ e₁ d m : Engine} {c : Command} {config : Config}
  {p : ConnAck}

theorem Step.epoch_le (h : Step c e d) : e.epoch ≤ d.epoch := by
  cases h with
  | does does => exact Nat.le_of_eq does.epoch_eq.symm
  | links => exact Nat.le_refl _
  | parts parts => exact Nat.le_of_lt parts.epoch_lt

theorem epoch_le_of_steps (h : Steps c e d) : e.epoch ≤ d.epoch := by
  induction h with
  | refl => exact Nat.le_refl _
  | tail _ step ih => exact Nat.le_trans ih step.epoch_le

theorem Progress.epoch_le (h : Progress c e d) : e.epoch ≤ d.epoch := by
  obtain ⟨m, hears, steps⟩ | parts | ⟨config, p, m, accepts, steps⟩ := h
  · exact hears.epoch_eq ▸ epoch_le_of_steps steps
  · exact Nat.le_of_lt parts.epoch_lt
  · exact accepts.epoch_eq ▸ epoch_le_of_steps steps

theorem Drifts.epoch_eq (h : Drifts e d) : d.epoch = e.epoch := by
  cases h <;> rfl

theorem Drifts.connection_eq (h : Drifts e d) : d.session.connection = e.session.connection := by
  cases h <;> rfl

theorem Reachable.progress (h : Reachable past e) (possible : Possible past e c) :
    Progress c e (e.handle c) :=
  h.accounted.settled.progress (h.accounted.heard possible)

theorem Leads.reachable (h : Leads past₁ e₁ past e) (run : Reachable past₁ e₁) :
    Reachable past e := by
  induction h with
  | refl => exact run
  | handle _ possible ih => exact .handle ih possible
  | drift _ drifts ih => exact ih.drift drifts

theorem Leads.epoch_le (h : Leads past₁ e₁ past e) (run : Reachable past₁ e₁) :
    e₁.epoch ≤ e.epoch := by
  induction h with
  | refl => exact Nat.le_refl _
  | handle leads possible ih =>
    exact Nat.le_trans ih ((leads.reachable run).progress possible).epoch_le
  | drift _ drifts ih => exact drifts.epoch_eq ▸ ih

/-- What holds of a run is kept while the epoch lasts: by each command when it is taken notice of,
by each deed of a command of the kind that counts, and between two commands. -/
structure Kept (counts : Command → Prop) (motive : List Command → Engine → Prop) : Prop where
  hears : ∀ {past : List Command} {e : Engine} {c : Command} {m : Engine}, Reachable past e →
    Possible past e c → e.session.connection = .connected → motive past e → Hears c e m →
    motive (past ++ [c]) m
  does : ∀ {past : List Command} {c : Command} {m d : Engine} {out : List Effect}, c ∈ past →
    counts c → motive past m → Does c m out d → motive past d
  links : ∀ {past : List Command} {m : Engine} {config : Config} (room : Option Nat),
    motive past m → m.config = some config → motive past { m with
      opening := false
      link := some { maxOutgoing := config.maxOutgoing, room } }
  drift : ∀ {past : List Command} {e d : Engine}, motive past e → Drifts e d → motive past d

theorem Kept.mono {counts counts' : Command → Prop} {motive : List Command → Engine → Prop}
    (h : Kept counts motive) (fewer : ∀ c, counts' c → counts c) : Kept counts' motive :=
  { h with does := fun hm counted => h.does hm (fewer _ counted) }

theorem steps_induction {motive : Engine → Prop} (h : Steps c e d) (same : d.epoch = e.epoch)
    (start : motive e)
    (does : ∀ {m d : Engine} {out : List Effect}, motive m → Does c m out d → motive d)
    (links : ∀ {m : Engine} {config : Config} (room : Option Nat), motive m →
      m.config = some config → motive { m with
        opening := false
        link := some { maxOutgoing := config.maxOutgoing, room } }) : motive d := by
  induction h with
  | refl => exact start
  | tail steps step ih =>
    have before := epoch_le_of_steps steps
    have after := step.epoch_le
    have here := ih (by omega)
    cases step with
    | does did => exact does here did
    | links room configured => exact links room here configured
    | parts parts =>
      have lt := parts.epoch_lt
      omega

theorem parts_connAck (connected : e.session.connection = .connected) (p : ConnAck) :
    Parts (.incoming e.epoch (.connAck p)) e (e.handle (.incoming e.epoch (.connAck p))) := by
  let arrived := e.withSession { e.session with lastIncoming := e.now }
  have refused : e.session.receive e.now (.connAck p)
      = ({ e.session with lastIncoming := e.now }, .error .wrongPacket) := by
    simp [Session.receive, Session.receiveConnAck, connected]
  rw [Engine.handle, if_pos rfl, Engine.incoming, refused]
  have heard : Persists (.incoming e.epoch (.connAck p)) e arrived :=
    .of_eq rfl rfl rfl id rfl rfl rfl rfl rfl rfl
  have told := arrived.stays_sendDisconnect (c := .incoming e.epoch (.connAck p)) .protocolError
  refine (heard.trans told.toPersists).parts (parts_connectionLost _ _ fun gone => ?_)
  cases connected.symm.trans (told.connection_eq.symm.trans gone)

theorem Leads.on_connection {motive : List Command → Engine → Prop} (h : Leads past₁ e₁ past e)
    (run : Reachable past₁ e₁) (live : e₁.session.connection = .connected)
    (same : e.epoch = e₁.epoch) (start : motive past₁ e₁)
    (kept : Kept (¬ ·.IsConnAck) motive) :
    motive past e ∧ e.session.connection = .connected := by
  induction h with
  | refl => exact ⟨start, live⟩
  | drift leads drifts ih =>
    obtain ⟨here, connected⟩ := ih (drifts.epoch_eq.symm.trans same)
    exact ⟨kept.drift here drifts, drifts.connection_eq.trans connected⟩
  | @handle past e c leads possible ih =>
    have reached := leads.reachable run
    have before := leads.epoch_le run
    have progress := reached.progress possible
    have after := progress.epoch_le
    obtain ⟨here, connected⟩ := ih (by omega)
    by_cases again : c.IsConnAck
    · obtain ⟨epoch, p, rfl⟩ := again
      by_cases current : epoch = e.epoch
      · subst current
        have lt := (parts_connAck connected p).epoch_lt
        omega
      · have ignored : e.handle (.incoming epoch (.connAck p)) = e := by
          rw [Engine.handle, if_neg current]
        rw [ignored]
        exact ⟨kept.hears reached possible connected here
          (.refl _ e (by rw [receivedAfter, if_neg current])), connected⟩
    · obtain ⟨m, heard, steps⟩ | parts | ⟨config, p, m, accepts, -⟩ := progress
      · have lasts : (e.handle c).epoch = m.epoch := by
          rw [heard.epoch_eq]
          omega
        have arrived := kept.hears reached possible connected here heard
        have deeds := steps_induction (motive := fun d => motive (past ++ [c]) d ∧
            d.session.connection = .connected) steps lasts
          ⟨arrived, heard.connection_eq.trans connected⟩
          (fun held did => ⟨kept.does (by simp) again held.1 did, did.connection_eq.trans held.2⟩)
          fun room held configured => ⟨kept.links room held.1 configured, held.2⟩
        exact deeds
      · have lt := parts.epoch_lt
        omega
      · cases connected.symm.trans accepts.connecting

theorem Accepts.on_connection {motive : List Command → Engine → Prop}
    (h : Accepts config p (.incoming e₀.epoch (.connAck p)) e₀ m)
    (steps : Steps (.incoming e₀.epoch (.connAck p)) m
      (e₀.handle (.incoming e₀.epoch (.connAck p))))
    (run : Reachable past₀ e₀) (possible : Possible past₀ e₀ (.incoming e₀.epoch (.connAck p)))
    (leads : Leads (past₀ ++ [.incoming e₀.epoch (.connAck p)])
      (e₀.handle (.incoming e₀.epoch (.connAck p))) past e)
    (same : e.epoch = e₀.epoch)
    (start : motive (past₀ ++ [.incoming e₀.epoch (.connAck p)]) m)
    (kept : Kept (fun _ => True) motive) :
    motive past e ∧ e.session.connection = .connected := by
  have opened := run.handle possible
  have before := epoch_le_of_steps steps
  have after := leads.epoch_le opened
  have began := h.epoch_eq
  let held : Engine → Prop := fun d =>
    motive (past₀ ++ [.incoming e₀.epoch (.connAck p)]) d ∧ d.session.connection = .connected
  have resumed : held (e₀.handle (.incoming e₀.epoch (.connAck p))) :=
    steps_induction (motive := held) steps (by omega) ⟨start, h.connected⟩
      (fun here did => ⟨kept.does (by simp) trivial here.1 did, did.connection_eq.trans here.2⟩)
      fun room here configured => ⟨kept.links room here.1 configured, here.2⟩
  exact leads.on_connection opened resumed.2 (by omega) resumed.1 (kept.mono fun _ _ => trivial)

theorem Lasts.accepted (h : Lasts past₀ e₀ config p past e) :
    ∃ m, Accepts config p (.incoming e₀.epoch (.connAck p)) e₀ m ∧
      Steps (.incoming e₀.epoch (.connAck p)) m
        (e₀.handle (.incoming e₀.epoch (.connAck p))) := by
  obtain ⟨config', m, accepted, steps⟩ :=
    h.reachable.accounted.settled.accept h.connecting h.success
  have kept : Kept (fun _ => True) fun _ d => d.config = some config' := {
    hears := fun _ _ _ here heard => heard.config_eq.trans here
    does := fun _ _ here did => did.config_eq.trans here
    links := fun _ here _ => here
    drift := fun here drifts => drifts.rests.config_eq.trans here }
  have same := accepted.on_connection steps h.reachable h.possible h.leads h.epoch_eq
    (accepted.config_eq.trans accepted.configured) kept
  cases h.config_eq.symm.trans same.1
  exact ⟨m, accepted, steps⟩

/-- The connection on which a run lasts, deed by deed from its acceptance. -/
theorem Lasts.on_connection {motive : List Command → Engine → Prop}
    (h : Lasts past₀ e₀ config p past e)
    (start : ∀ {m : Engine}, Accepts config p (.incoming e₀.epoch (.connAck p)) e₀ m →
      motive (past₀ ++ [.incoming e₀.epoch (.connAck p)]) m)
    (kept : Kept (fun _ => True) motive) :
    motive past e ∧ e.session.connection = .connected := by
  obtain ⟨m, accepted, steps⟩ := h.accepted
  exact accepted.on_connection steps h.reachable h.possible h.leads h.epoch_eq (start accepted)
    kept

theorem Lasts.connected (h : Lasts past₀ e₀ config p past e) :
    e.session.connection = .connected := by
  have kept : Kept (fun _ => True) fun _ _ => True := {
    hears := fun _ _ _ _ _ => trivial
    does := fun _ _ _ _ => trivial
    links := fun _ _ _ => trivial
    drift := fun _ _ => trivial }
  exact (h.on_connection (fun _ => trivial) kept).2

theorem Lasts.run (h : Lasts past₀ e₀ config p past e) : Reachable past e :=
  h.leads.reachable (.handle h.reachable h.possible)

end MqttClient.Engine
