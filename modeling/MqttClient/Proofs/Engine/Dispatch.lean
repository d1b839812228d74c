import MqttClient.Proofs.Engine.Remembered

/-! What a message sets off. Each handler that stands for a filter of the topic runs once, however
many of its filters match, and no other runs; in which order the entries of the table are gone
through does not matter, except for the order in which the handlers run. -/

namespace MqttClient

namespace SubscriptionTable

variable {H : Type} {listing : List (String × Subscription H)} {topic : String} {h : H}

theorem map_fst_of (handlers : List H) (p : Publish) :
    (Dispatch.of handlers p).runs.map (·.1) = handlers := by
  simp [Dispatch.of, Function.comp_def]

variable [DecidableEq H]

theorem nodup_eraseDups : (l : List H) → l.eraseDups.Nodup
  | [] => List.nodup_nil
  | first :: rest => by
    rw [List.eraseDups_cons]
    refine List.nodup_cons.2 ⟨fun again => ?_, nodup_eraseDups _⟩
    simpa using (List.mem_filter.1 (List.mem_eraseDups.1 again)).2
  termination_by l => l.length
  decreasing_by exact Nat.lt_succ_of_le (List.length_filter_le _ rest)

/-- The handlers with a filter that matches, found in the order of a listing of the entries. -/
def handlersIn (listing : List (String × Subscription H)) (topic : String) : List H :=
  ((listing.filter fun (path, _) => Topic.isMatch topic path).map (·.2.handler)).eraseDups

theorem handlersOf_eq (t : SubscriptionTable H) (topic : String) :
    t.handlersOf topic = handlersIn t.entries.toList topic := rfl

theorem mem_handlersIn :
    h ∈ handlersIn listing topic ↔
      ∃ path s, (path, s) ∈ listing ∧ Topic.isMatch topic path = true ∧ s.handler = h := by
  simp only [handlersIn, List.mem_eraseDups, List.mem_map, List.mem_filter, Prod.exists, and_assoc]

theorem handlersIn_perm {other : List (String × Subscription H)} (perm : other.Perm listing) :
    (handlersIn other topic).Perm (handlersIn listing topic) := by
  refine (List.perm_ext_iff_of_nodup (nodup_eraseDups _) (nodup_eraseDups _)).2 fun h => ?_
  rw [← handlersIn, ← handlersIn, mem_handlersIn, mem_handlersIn]
  simp only [perm.mem_iff]

theorem mem_handlersOf {t : SubscriptionTable H} :
    h ∈ t.handlersOf topic ↔
      ∃ path s, t.get? path = some s ∧ Topic.isMatch topic path = true ∧ s.handler = h := by
  rw [handlersOf_eq, mem_handlersIn]
  simp only [Std.TreeMap.mem_toList_iff_getElem?_eq_some, get?]

theorem mem_handlersOf_ofOperations (ops : List (Operation H)) :
    h ∈ (ofOperations ops).handlersOf topic ↔
      ∃ f, Stands ops f h ∧ Topic.isMatch topic f.path = true := by
  rw [mem_handlersOf]
  constructor
  · rintro ⟨path, s, entered, isMatch, rfl⟩
    obtain ⟨f, stands, rfl, -⟩ := (get?_ofOperations ops path s).1 entered
    exact ⟨f, stands, isMatch⟩
  · rintro ⟨f, stands, isMatch⟩
    exact ⟨f.path, { qos := f.qos, handler := h },
      (get?_ofOperations ..).2 ⟨f, stands, rfl, rfl⟩, isMatch, rfl⟩

/-- A message runs every handler that stands for a filter of its topic, once, and no other; each
gets the message as it is. The count is theirs, and another order of the entries changes neither
whom it runs nor how many. -/
theorem dispatch_ofOperations (ops : List (Operation H)) (p : Publish) :
    let t := ofOperations ops
    let d := t.dispatch p
    (∀ h, (d.runs.map (·.1)).count h ≤ 1 ∧ ((d.runs.map (·.1)).count h = 1 ↔
      ∃ f, Stands ops f h ∧ Topic.isMatch p.topic f.path = true)) ∧
    (∀ run ∈ d.runs, run.2.topic = p.topic ∧ run.2.payload = p.payload ∧ run.2.qos = p.qos ∧
      run.2.retain = p.retain ∧ run.2.dup = p.dup ∧ run.2.properties = p.properties) ∧
    d.count = d.runs.length ∧
    ∀ listing, listing.Perm t.entries.toList →
      let d' := Dispatch.of (handlersIn listing p.topic) p
      d'.runs.Perm d.runs ∧ d'.count = d.count := by
  intro t d
  have once : (t.handlersOf p.topic).Nodup := nodup_eraseDups _
  refine ⟨fun h => ?_, ?_, ?_, ?_⟩
  · have run : d.runs.map (·.1) = t.handlersOf p.topic := map_fst_of _ p
    rw [run, ← mem_handlersOf_ofOperations]
    refine ⟨List.nodup_iff_count_le_one.1 once h, fun runs => ?_, List.count_eq_one_of_mem once⟩
    exact List.count_pos_iff.1 (runs ▸ Nat.one_pos)
  · intro run mem
    obtain ⟨h, -, rfl⟩ := List.mem_map.1 mem
    exact ⟨rfl, rfl, rfl, rfl, rfl, rfl⟩
  · exact (List.length_map _).symm
  · intro listing perm d'
    have same : (handlersIn listing p.topic).Perm (t.handlersOf p.topic) := handlersIn_perm perm
    exact ⟨same.map _, same.length_eq⟩

def overlapping : List (Operation HandlerId) :=
  [.insert { path := "a/#", qos := .atMostOnce } 0, .insert { path := "a/b", qos := .atMostOnce } 1,
    .insert { path := "+/b", qos := .exactlyOnce } 0,
    .insert { path := "a/b", qos := .atLeastOnce } 2]

theorem dispatch_overlapping :
    let p : Publish := { topic := "a/b", qos := .atMostOnce, payload := [1] }
    let t := ofOperations overlapping
    let backwards := Dispatch.of (handlersIn t.entries.toList.reverse p.topic) p
    ((t.dispatch p).runs.map (·.1)).count 0 = 1 ∧ ((t.dispatch p).runs.map (·.1)).count 2 = 1 ∧
      backwards.runs.Perm (t.dispatch p).runs ∧ backwards.count = (t.dispatch p).count := by
  intro p t backwards
  obtain ⟨runs, -, -, ordered⟩ := dispatch_ofOperations overlapping p
  have first : Stands overlapping { path := "a/#", qos := .atMostOnce } 0 :=
    ⟨[], _, rfl, by decide⟩
  have last : Stands overlapping { path := "a/b", qos := .atLeastOnce } 2 :=
    ⟨overlapping.dropLast, [], rfl, List.forall_mem_nil _⟩
  exact ⟨(runs 0).2.2 ⟨_, first, by decide⟩, (runs 2).2.2 ⟨_, last, by decide⟩,
    ordered _ (List.reverse_perm _)⟩

end SubscriptionTable

/-- The engine delivers what the table dispatches. -/
theorem Engine.effects_dispatch (e : Engine) (p : Publish) :
    (e.dispatch p).effects =
      e.effects ++ (e.subscriptions.dispatch p).runs.map fun (h, m) => .deliver h m := by
  rw [dispatch_eq]
  simp [SubscriptionTable.dispatch, SubscriptionTable.Dispatch.of, Function.comp_def]

end MqttClient
