import MqttClient.Proofs.Engine.Stale

/-! What goes over each connection. A run is followed with a ledger of its connections: a line
starts with each socket that comes, and takes what is read from it and what gets written. However
packets come to be written, each line keeps to one discipline. -/

namespace MqttClient

inductive Traffic
  | read (p : Packet)
  | wrote (p : Packet)

def Packet.isConnect : Packet → Bool
  | .connect _ => true
  | _ => false

def Packet.isDisconnect : Packet → Bool
  | .disconnect _ => true
  | _ => false

def Packet.needsSession : Packet → Bool
  | .publish _ | .subscribe _ | .unsubscribe _ | .pingReq => true
  | _ => false

/-- The packet carries an identifier if it is a request that is acknowledged, and a message that is
not carries none. -/
def Packet.IsNumbered : Packet → Prop
  | .publish p => p.packetId = 0 ↔ p.qos = .atMostOnce
  | .subscribe p => p.packetId ≠ 0
  | .unsubscribe p => p.packetId ≠ 0
  | _ => True

def Accepted (line : List Traffic) : Prop :=
  ∃ p, .read (.connAck p) ∈ line ∧ p.code = .success

/-- The packet may be written on a connection after what went over it before. -/
structure MayFollow (before : List Traffic) (p : Packet) : Prop where
  /-- The request to open a session comes first, and nothing else does. -/
  connect_iff : p.isConnect = true ↔ ∀ q, .wrote q ∉ before
  accepted : p.needsSession = true → Accepted before
  /-- Nothing follows the goodbye. -/
  undisconnected : ∀ q, .wrote q ∈ before → q.isDisconnect = false
  numbered : p.IsNumbered

def Disciplined (line : List Traffic) : Prop :=
  ∀ before p after, line = before ++ .wrote p :: after → MayFollow before p

def writes (out : List Effect) : List Traffic := (out.filterMap Effect.packet?).map .wrote

def Traffic.written? : Traffic → Option Packet
  | wrote p => some p
  | read _ => none

section

variable {line : List Traffic} {p : Packet}

theorem disciplined_nil : Disciplined [] := by
  intro before p after h
  cases before <;> cases h

theorem Disciplined.read (h : Disciplined line) (p : Packet) : Disciplined (line ++ [.read p]) := by
  intro before q after eq
  obtain ⟨-, last, -⟩ | ⟨rest, -, eq⟩ := Listing.concat_eq_append_cons_iff.1 eq
  · cases last
  · exact h before q rest eq

theorem Disciplined.wrote (h : Disciplined line) (fits : MayFollow line p) :
    Disciplined (line ++ [.wrote p]) := by
  intro before q after eq
  obtain ⟨rfl, last, -⟩ | ⟨rest, -, eq⟩ := Listing.concat_eq_append_cons_iff.1 eq
  · cases last
    exact fits
  · exact h before q rest eq

theorem Accepted.append (h : Accepted line) (more : List Traffic) : Accepted (line ++ more) := by
  obtain ⟨p, read, success⟩ := h
  exact ⟨p, List.mem_append_left _ read, success⟩

theorem writes_append (out out' : List Effect) :
    writes (out ++ out') = writes out ++ writes out' := by
  simp [writes]

theorem written_writes (out : List Effect) :
    (writes out).filterMap Traffic.written? = out.filterMap Effect.packet? := by
  rw [writes, List.filterMap_map]
  exact List.filterMap_some

theorem writes_of_silent {out : List Effect} (silent : out.any Effect.isWrite = false) :
    writes out = [] := by
  refine List.map_eq_nil_iff.2 (List.filterMap_eq_nil_iff.2 fun x hx => ?_)
  have other := List.any_eq_false.1 silent x hx
  cases x with
  | write => exact absurd rfl other
  | _ => rfl

theorem silent_of_tells {gives : ConnectionError → Prop} {out : List Effect}
    (tells : ∀ x ∈ out, x.Tells gives) : out.any Effect.isWrite = false := by
  refine List.any_eq_false.2 fun x hx => ?_
  have told := tells x hx
  cases x with
  | write => exact absurd told id
  | _ => exact Bool.false_ne_true

theorem ordinary_of_fits {connected : Prop} (h : p.isAck = true ∨ connected ∧ p.IsOfSession) :
    p.isConnect = false ∧ p.isDisconnect = false ∧ p.IsNumbered ∧
      (p.needsSession = true → connected) := by
  obtain ack | ⟨here, fits⟩ := h
  · cases p with
    | publish | subscribe | unsubscribe | pingReq | connect | disconnect => cases ack
    | _ => exact ⟨rfl, rfl, trivial, nofun⟩
  · cases p with
    | publish | subscribe | unsubscribe => exact ⟨rfl, rfl, fits, fun _ => here⟩
    | _ => exact absurd fits id

end

/-- The line of a connection stands to the front of its engine as it should. -/
structure OnLine (f : Front) (line : List Traffic) : Prop where
  disciplined : Disciplined line
  greeted : f.linked = true → ∃ q, .wrote q ∈ line
  undisconnected : f.linked = true → ∀ q, .wrote q ∈ line → q.isDisconnect = false
  accepted : f.connection = .connected → Accepted line

namespace OnLine

variable {c : Command} {gives : ConnectionError → Prop} {f g : Front} {line : List Traffic}

theorem of_unlinked (disciplined : Disciplined line) (unlinked : f.linked = false)
    (unconnected : f.connection ≠ .connected) : OnLine f line where
  disciplined
  greeted linked := by cases unlinked.symm.trans linked
  undisconnected linked := by cases unlinked.symm.trans linked
  accepted connected := absurd connected unconnected

theorem congr (h : OnLine f line) (linked : g.linked = f.linked)
    (connection : g.connection = f.connection) : OnLine g line where
  disciplined := h.disciplined
  greeted live := h.greeted (linked ▸ live)
  undisconnected live := h.undisconnected (linked ▸ live)
  accepted connected := h.accepted (connection ▸ connected)

theorem read (h : OnLine f line) (p : Packet) : OnLine f (line ++ [.read p]) where
  disciplined := h.disciplined.read p
  greeted linked := by
    obtain ⟨q, wrote⟩ := h.greeted linked
    exact ⟨q, List.mem_append_left _ wrote⟩
  undisconnected linked q wrote := h.undisconnected linked q (by simpa using wrote)
  accepted connected := (h.accepted connected).append _

theorem fits (h : OnLine f line) (linked : f.linked = true) {p : Packet}
    (other : p.isConnect = false) (accepted : p.needsSession = true → Accepted line)
    (numbered : p.IsNumbered) : MayFollow line p where
  connect_iff := by
    obtain ⟨q, wrote⟩ := h.greeted linked
    exact ⟨fun is => absurd is (by simp [other]), fun none => absurd wrote (none q)⟩
  accepted
  undisconnected := h.undisconnected linked
  numbered

theorem wrote (h : OnLine f line) {p : Packet} (fits : MayFollow line p)
    (stays : p.isDisconnect = false) (linked : g.linked = f.linked)
    (connection : g.connection = f.connection) : OnLine g (line ++ [.wrote p]) where
  disciplined := h.disciplined.wrote fits
  greeted _ := ⟨p, by simp⟩
  undisconnected live q wrote := by
    obtain before | now := List.mem_append.1 wrote
    · exact h.undisconnected (linked ▸ live) q before
    · cases List.mem_singleton.1 now
      exact stays
  accepted connected := (h.accepted (connection ▸ connected)).append _

theorem move (h : OnLine f line) (move : Move c gives f g)
    (heard : ∀ epoch p, c = .incoming epoch (.connAck p) → .read (.connAck p) ∈ line) :
    ∃ out, g.effects = f.effects ++ out ∧ OnLine g (line ++ writes out) := by
  have quiet : ∀ {k : Front} (out : List Effect), out.any Effect.isWrite = false →
      k.effects = f.effects ++ out → OnLine k line →
      ∃ out, k.effects = f.effects ++ out ∧ OnLine k (line ++ writes out) :=
    fun out silent effects here =>
      ⟨out, effects, by rwa [writes_of_silent silent, List.append_nil]⟩
  have still := (List.append_nil f.effects).symm
  cases move with
  | tells tells => exact quiet _ (silent_of_tells tells) rfl (h.congr rfl rfl)
  | @writes call packet bytes linked fits =>
    obtain ⟨other, stays, numbered, open_⟩ := ordinary_of_fits fits
    exact ⟨_, rfl, h.wrote (h.fits linked other (fun needs => h.accepted (open_ needs)) numbered)
      stays rfl rfl⟩
  | arms | disarms | pongs => exact quiet [] rfl still (h.congr rfl rfl)
  | pings bytes linked connected =>
    have fits : MayFollow line .pingReq := h.fits linked rfl (fun _ => h.accepted connected) trivial
    exact ⟨_, rfl, h.wrote fits rfl rfl rfl⟩
  | @accepts config p asked success =>
    have accepted : Accepted line := ⟨p, heard _ p asked, success⟩
    exact quiet [] rfl still { h with accepted := fun _ => accepted }
  | parts farewell =>
    have mute : ∀ {g : Front}, g.linked = false → g.connection ≠ .connected → OnLine g line :=
      of_unlinked h.disciplined
    have goodbye : f.linked = true → ∀ p, Disciplined (line ++ [.wrote (.disconnect p)]) :=
      fun linked p => h.disciplined.wrote (h.fits linked rfl nofun trivial)
    cases farewell with
    | silent => exact quiet _ rfl rfl (mute rfl nofun)
    | closes => exact quiet _ rfl rfl (mute rfl nofun)
    | tells linked p bytes => exact ⟨_, rfl, of_unlinked (goodbye linked p) rfl nofun⟩
    | tellsAndCloses linked p bytes => exact ⟨_, rfl, of_unlinked (goodbye linked p) rfl nofun⟩
  | attempts config keepAlive host port disconnected unlinked =>
    exact quiet [.attempt (f.epoch + 1) host port] rfl rfl
      (of_unlinked h.disciplined unlinked nofun)

theorem moves (h : OnLine f line) (moves : Moves c gives f g)
    (heard : ∀ epoch p, c = .incoming epoch (.connAck p) → .read (.connAck p) ∈ line) :
    ∃ out, g.effects = f.effects ++ out ∧ OnLine g (line ++ writes out) := by
  refine moves_trace (motive := fun out k => OnLine k (line ++ writes out))
    (by simpa [writes] using h) (fun {out k k'} here next => ?_) moves
  obtain ⟨more, effects, there⟩ :=
    here.move next fun epoch p asked => List.mem_append_left _ (heard epoch p asked)
  rw [List.append_assoc, ← writes_append] at there
  exact ⟨more, effects, there⟩

end OnLine

theorem silent_of_unlinked {c : Command} {gives : ConnectionError → Prop} {f g : Front}
    (h : Moves c gives f g) (unlinked : f.linked = false) :
    ∃ out, g.effects = f.effects ++ out ∧ g.linked = false ∧ out.any Effect.isWrite = false := by
  refine moves_trace (motive := fun out k => k.linked = false ∧ out.any Effect.isWrite = false)
    ⟨unlinked, rfl⟩ (fun {out k k'} here move => ?_) h
  obtain ⟨here, silent⟩ := here
  have adds : ∀ more, k'.effects = k.effects ++ more → k'.linked = false →
      more.any Effect.isWrite = false → ∃ more, k'.effects = k.effects ++ more ∧
        k'.linked = false ∧ (out ++ more).any Effect.isWrite = false :=
    fun more effects there silent' => ⟨more, effects, there, by simp [silent, silent']⟩
  have still := (List.append_nil k.effects).symm
  cases move with
  | tells tells => exact adds _ rfl here (silent_of_tells tells)
  | writes _ linked | pings _ linked => cases here.symm.trans linked
  | arms | disarms | pongs | accepts => exact adds [] still here rfl
  | parts farewell =>
    cases farewell with
    | silent => exact adds [] rfl rfl rfl
    | closes => exact adds [.close] rfl rfl rfl
    | tells linked | tellsAndCloses linked => cases here.symm.trans linked
  | attempts config keepAlive host port =>
    exact adds [.attempt (k.epoch + 1) host port] rfl here rfl

namespace Engine

def reads (e : Engine) : Command → List Traffic
  | .incoming epoch p => if epoch = e.epoch then [.read p] else []
  | _ => []

def traffic (e : Engine) (c : Command) : List Traffic :=
  e.reads c ++ writes ((e.handle c).effects.drop e.effects.length)

/-- A line starts with each socket, and the latest takes what goes over the connection. -/
def carry (opens : Bool) (more : List Traffic) (lines : List (List Traffic)) :
    List (List Traffic) :=
  if opens then more :: lines else lines.modifyHead (· ++ more)

/-- The engines of all runs, with their commands and the lines of their connections, the latest
first. -/
inductive Wired : List Command → Engine → List (List Traffic) → Prop
  | start : Wired [] {} []
  | handle {past e lines c} : Wired past e lines → Possible past e c →
    Wired (past ++ [c]) (e.handle c) (carry (c.opens e.epoch) (e.traffic c) lines)
  | drift {past e d lines} : Wired past e lines → Drifts e d → Wired past d lines

variable {past : List Command} {e d : Engine} {c : Command} {line : List Traffic}
  {lines : List (List Traffic)}

theorem Wired.reachable (h : Wired past e lines) : Reachable past e := by
  induction h with
  | start => exact .start
  | handle _ possible ih => exact .handle ih possible
  | drift _ drifts ih => exact ih.drift drifts

/-- Every run has its lines. -/
theorem Reachable.wired (h : Reachable past e) : ∃ lines, Wired past e lines := by
  induction h with
  | start => exact ⟨_, .start⟩
  | handle _ possible ih =>
    obtain ⟨lines, wired⟩ := ih
    exact ⟨_, wired.handle possible⟩
  | clock now _ ih => exact ih.imp fun _ wired => wired.drift (.clock now)
  | draw draw _ ih => exact ih.imp fun _ wired => wired.drift (.draw draw)
  | room room _ ih => exact ih.imp fun _ wired => wired.drift (.room room)
  | abandon call _ ih => exact ih.imp fun _ wired => wired.drift (.abandon call)

theorem traffic_eq {out : List Effect} (effects : (e.handle c).effects = e.effects ++ out) :
    e.traffic c = e.reads c ++ writes out := by
  rw [traffic, effects, List.drop_left]

theorem onLine_reads (h : OnLine e.front line) (c : Command) :
    OnLine e.front (line ++ e.reads c) := by
  unfold Engine.reads
  split
  · split
    · exact h.read _
    · rwa [List.append_nil]
  · rwa [List.append_nil]

theorem onLine_greeted (f : Front) (connecting : f.connection = .connecting)
    (call : Option CallId) (p : Connect) (bytes : Bytes) :
    OnLine (f.greeted call p bytes) [.wrote (.connect p)] where
  disciplined := by
    have fits : MayFollow [] (.connect p) :=
      ⟨by simp [Packet.isConnect], nofun, by simp, trivial⟩
    exact disciplined_nil.wrote fits
  greeted _ := ⟨_, List.mem_singleton.2 rfl⟩
  undisconnected _ q wrote := by
    cases List.mem_singleton.1 wrote
    rfl
  accepted connected := by cases connecting.symm.trans connected

theorem onLine_handle (reached : Reachable past e) (possible : Possible past e c)
    (h : OnLine e.front line) :
    OnLine (e.handle c).front ((if c.opens e.epoch then [] else line) ++ e.traffic c) := by
  cases reached.reacts possible with
  | moves other moves =>
    rw [if_neg (mt Command.opens_iff.1 other)]
    by_cases stale : ∃ epoch p, c = .incoming epoch p ∧ epoch ≠ e.epoch
    · obtain ⟨epoch, p, rfl, ne⟩ := stale
      have same : e.handle (.incoming epoch p) = e := handle_of_epoch_ne rfl ne
      have nothing : e.traffic (.incoming epoch p) = [] := by
        rw [traffic, same, List.drop_length, Engine.reads, if_neg ne]
        rfl
      rwa [nothing, same, List.append_nil]
    · have heard : ∀ epoch p, c = .incoming epoch (.connAck p) →
          .read (.connAck p) ∈ line ++ e.reads c := by
        rintro epoch p rfl
        have current : epoch = e.epoch := by
          by_contra ne
          exact stale ⟨epoch, _, rfl, ne⟩
        simp [Engine.reads, current]
      obtain ⟨out, effects, here⟩ := (onLine_reads h c).moves moves heard
      rwa [traffic_eq effects, ← List.append_assoc]
  | fails opens moves unlinked effects silent =>
    obtain ⟨room, rfl⟩ := opens
    have posture := (reached.handle possible).accounted.settled.posture
    rw [if_pos (Command.opens_iff.2 ⟨room, rfl⟩), traffic_eq effects, writes_of_silent silent]
    refine .of_unlinked disciplined_nil (congrArg Option.isSome unlinked) fun connected => ?_
    have linked := posture.link_isSome connected
    rw [unlinked] at linked
    cases linked
  | @greets opens connecting call p bytes front_eq =>
    obtain ⟨room, rfl⟩ := opens
    rw [if_pos (Command.opens_iff.2 ⟨room, rfl⟩), traffic_eq (congrArg Front.effects front_eq),
      front_eq]
    exact onLine_greeted e.front connecting call p bytes

theorem Drifts.onLine (h : Drifts e d) (here : OnLine e.front line) : OnLine d.front line := by
  cases h with
  | room room => exact here.congr Option.isSome_map rfl
  | _ => exact here.congr rfl rfl

theorem silent_handle (reached : Reachable past e) (possible : Possible past e c)
    (unlinked : e.front.linked = false) (other : ¬ c.Opens e.epoch) :
    ∃ out, (e.handle c).effects = e.effects ++ out ∧ (e.handle c).front.linked = false ∧
      out.any Effect.isWrite = false := by
  cases reached.reacts possible with
  | moves _ moves => exact silent_of_unlinked moves unlinked
  | fails opens | greets opens => exact absurd opens other

theorem unlinked_of_nil (h : OnLine e.front []) : e.front.linked = false := by
  by_contra linked
  obtain ⟨q, wrote⟩ := h.greeted (by simpa using linked)
  cases wrote

theorem Wired.onLine (h : Wired past e lines) :
    (∀ line ∈ lines, Disciplined line) ∧ OnLine e.front (lines.headD []) := by
  induction h with
  | start => exact ⟨List.forall_mem_nil _, .of_unlinked disciplined_nil rfl nofun⟩
  | @handle past e lines c wired possible ih =>
    obtain ⟨kept, here⟩ := ih
    have after := onLine_handle wired.reachable possible here
    by_cases opens : c.opens e.epoch = true
    · rw [if_pos opens] at after
      rw [carry, if_pos opens]
      exact ⟨List.forall_mem_cons.2 ⟨after.disciplined, kept⟩, after⟩
    · rw [if_neg opens] at after
      rw [carry, if_neg opens]
      cases lines with
      | nil =>
        obtain ⟨-, -, unlinked, -⟩ := silent_handle wired.reachable possible
          (unlinked_of_nil here) (mt Command.opens_iff.2 opens)
        refine ⟨List.forall_mem_nil _, .of_unlinked disciplined_nil unlinked fun connected => ?_⟩
        have linked := (wired.reachable.handle possible).accounted.settled.posture.link_isSome
          connected
        cases unlinked.symm.trans linked
      | cons line rest =>
        obtain ⟨-, older⟩ := List.forall_mem_cons.1 kept
        exact ⟨List.forall_mem_cons.2 ⟨after.disciplined, older⟩, after⟩
  | drift _ drifts ih => exact ⟨ih.1, drifts.onLine ih.2⟩

theorem unwritten_reads (e : Engine) (c : Command) :
    (e.reads c).filterMap Traffic.written? = [] := by
  unfold Engine.reads
  split
  · split <;> rfl
  · rfl

theorem written_traffic {out : List Effect} (effects : (e.handle c).effects = e.effects ++ out) :
    (e.traffic c).filterMap Traffic.written? = out.filterMap Effect.packet? := by
  rw [traffic_eq effects, List.filterMap_append, unwritten_reads, List.nil_append, written_writes]

theorem Wired.written_eq (h : Wired past e lines) :
    lines.reverse.flatten.filterMap Traffic.written? = e.effects.filterMap Effect.packet? := by
  induction h with
  | start => rfl
  | @handle past e lines c wired possible ih =>
    obtain ⟨out, effects⟩ := (wired.reachable.reacts possible).effects
    have carried : (lines.reverse.flatten ++ e.traffic c).filterMap Traffic.written?
        = (e.handle c).effects.filterMap Effect.packet? := by
      rw [List.filterMap_append, ih, written_traffic effects, effects, List.filterMap_append]
    by_cases opens : c.opens e.epoch = true
    · rw [carry, if_pos opens, ← carried]
      simp
    · rw [carry, if_neg opens, ← carried]
      cases lines with
      | nil =>
        obtain ⟨out', effects', -, silent⟩ := silent_handle wired.reachable possible
          (unlinked_of_nil wired.onLine.2) (mt Command.opens_iff.2 opens)
        have nothing : writes out' = [] := writes_of_silent silent
        simp [traffic_eq effects', nothing, unwritten_reads]
      | cons line rest => simp
  | drift _ drifts ih => exact drifts.effects_eq ▸ ih

/-- However a run goes, whatever is written goes out on one of its connections, and each connection
keeps to the discipline, also when no client is left at last. -/
theorem disciplined_of_wired (h : Wired past e lines) :
    lines.reverse.flatten.filterMap Traffic.written? = e.effects.filterMap Effect.packet? ∧
    (∀ line ∈ lines, Disciplined line) ∧
    Disciplined (lines.headD [] ++ writes (e.stop.effects.drop e.effects.length)) := by
  obtain ⟨kept, here⟩ := h.onLine
  have stops : Moves (.cancel 0) (fun _ => True) e.front e.stop.front := e.moves_stop
  obtain ⟨out, effects, there⟩ := here.moves stops nofun
  have said : e.stop.effects.drop e.effects.length = out := by
    rw [show e.stop.effects = e.effects ++ out from effects, List.drop_left]
  exact ⟨h.written_eq, kept, said ▸ there.disciplined⟩

def wires (e : Engine) (lines : List (List Traffic)) : List Command → List (List Traffic)
  | [] => lines
  | c :: rest => wires (e.handle c) (carry (c.opens e.epoch) (e.traffic c) lines) rest

theorem Wired.append {cs : List Command} (h : Wired past e lines) (run : isRun past e cs = true) :
    Wired (past ++ cs) (cs.foldl Engine.handle e) (wires e lines cs) := by
  induction cs generalizing past e lines with
  | nil => rwa [List.append_nil]
  | cons c rest ih =>
    rw [isRun, Bool.and_eq_true] at run
    have next := ih (h.handle (possible_of_isPossible run.1)) run.2
    rwa [List.append_assoc] at next

def sentTwice : List Command :=
  sentOnce ++ broken ++ sentAgain ++ [.disconnect 2 .normalDisconnection]

theorem disciplined_sentTwice :
    let e := sentTwice.foldl handle {}
    let lines := wires {} [] sentTwice
    Wired sentTwice e lines ∧ lines.map List.length = [4, 3] ∧
      lines.reverse.flatten.filterMap Traffic.written? = e.effects.filterMap Effect.packet? ∧
      (∀ line ∈ lines, Disciplined line) ∧
      Disciplined (lines.headD [] ++ writes (e.stop.effects.drop e.effects.length)) := by
  have wired : Wired sentTwice (sentTwice.foldl handle {}) (wires {} [] sentTwice) :=
    Wired.start.append (by decide +kernel)
  exact ⟨wired, by decide +kernel, disciplined_of_wired wired⟩

end Engine

end MqttClient
