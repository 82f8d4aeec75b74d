import SignalGraph.Proofs.Engine.Erased
import SignalGraph.Proofs.Engine.Requests
import SignalGraph.Proofs.Engine.Routing

/-!
# Engines without a dormant node

Of two engines, one runs a graph with a dormant node and the other one the same graph without it
(`Engine.Without`). A job leaves such engines behind or cuts a pass of that graph short
(`Without.perform`, `Engine.Cut`). A pass that has been cut short stays on the record
(`Cut.perform`), so requests are served alike as long as none is on it (`Without.serveAll`). The
engines are such ones from the start of a load if the graphs that are built are the same up to the
node (`ErasedAt.install`).
-/

namespace SignalGraph

/-! ### The numbers of subscribers -/

/-- A bridge, by the number that its node has if node `k` of graph number `m` is there. -/
def Subscriber.raise (m k : Nat) (s : Subscriber) : Subscriber :=
  { s with node := if s.runner = m then skip k s.node else s.node }

namespace Engine

variable {m k : Nat}

/-- The table of the same bridges, by the numbers that their nodes have if node `k` of graph number
`m` is there. -/
def raiseTable (m k : Nat) (table : Dictionary (List Subscriber)) : Dictionary (List Subscriber) :=
  table.mapValues (List.map (Subscriber.raise m k))

theorem receivers_raiseTable (table : Dictionary (List Subscriber)) (signal : String) :
    receivers (raiseTable m k table) signal =
      (receivers table signal).map (Subscriber.raise m k) := by
  rw [receivers, raiseTable, Dictionary.find?_mapValues, receivers]
  cases table.find? signal <;> rfl

/-- A bridge enters the raised table as its raised subscriber. -/
theorem raiseTable_addSubscriber (table : Dictionary (List Subscriber)) (signal : String)
    (s : Subscriber) :
    raiseTable m k (addSubscriber table signal s) =
      addSubscriber (raiseTable m k table) signal (s.raise m k) := by
  have hreceivers := receivers_raiseTable (m := m) (k := k) table signal
  unfold receivers at hreceivers
  rw [raiseTable, addSubscriber, Dictionary.mapValues_insert, addSubscriber, hreceivers,
    List.map_append]
  rfl

/-- Adds a bridge with its signal. -/
def addBridge (table : Dictionary (List Subscriber)) (bridge : String × Subscriber) :
    Dictionary (List Subscriber) :=
  addSubscriber table bridge.1 bridge.2

theorem raiseTable_foldl (l : List (String × Subscriber)) (table : Dictionary (List Subscriber)) :
    raiseTable m k (l.foldl addBridge table) =
      (l.map (Prod.map id (Subscriber.raise m k))).foldl addBridge (raiseTable m k table) := by
  induction l generalizing table with
  | nil => rfl
  | cons bridge rest ih =>
    have hadd : raiseTable m k (addBridge table bridge) =
        addBridge (raiseTable m k table) (bridge.map id (Subscriber.raise m k)) :=
      raiseTable_addSubscriber table bridge.1 bridge.2
    rw [List.foldl_cons, ih, hadd, List.map_cons, List.foldl_cons]

/-- All bridges with their signals, in the order in which the table is made. -/
def bridges (graphs : List Graph) : List (String × Subscriber) :=
  graphs.zipIdx.flatMap fun (g, i) => g.inputBridges.map fun (node, signal) => (signal, ⟨i, node⟩)

/-- The table is built from the bridges of all graphs, in their order. -/
theorem subscriberTable_eq (graphs : List Graph) :
    subscriberTable graphs = (bridges graphs).foldl addBridge [] := by
  rw [bridges, List.foldl_flatMap, subscriberTable]
  simp only [List.foldl_map]
  rfl

/-- A list of graphs with graph number `m` once as it is and once without its dormant node `k`. -/
structure ErasedAt (m k : Nat) (graphs graphs' : List Graph) : Prop where
  length_eq : graphs'.length = graphs.length
  others : ∀ i, i ≠ m → graphs'[i]? = graphs[i]?
  own : ∃ g, graphs[m]? = some g ∧ g.Dormant k ∧ graphs'[m]? = some (g.erase k)

/-- Erasing a dormant node from one graph leaves the others alone. -/
theorem erasedAt_set {graphs : List Graph} {g : Graph} (hg : graphs[m]? = some g)
    (hdormant : g.Dormant k) : ErasedAt m k graphs (graphs.set m (g.erase k)) where
  length_eq := List.length_set
  others _ hi := List.getElem?_set_ne (Ne.symm hi)
  own := ⟨g, hg, hdormant, List.getElem?_set_self (List.getElem?_eq_some_iff.1 hg).1⟩

namespace ErasedAt

variable {graphs graphs' : List Graph}

/-- A dormant node has no bridge, so the bridges are the same, those of the graph moved up. -/
theorem bridges_eq (h : ErasedAt m k graphs graphs') :
    bridges graphs = (bridges graphs').map (Prod.map id (Subscriber.raise m k)) := by
  rw [bridges, bridges, List.map_flatMap, List.flatMap_def, List.flatMap_def]
  refine congrArg List.flatten (List.ext_getElem? fun i => ?_)
  rw [List.getElem?_map, List.getElem?_map, List.getElem?_zipIdx, List.getElem?_zipIdx,
    Nat.zero_add]
  by_cases hi : i = m
  · -- the bridges of the other nodes move up
    subst hi
    obtain ⟨g, hg, hdormant, hg'⟩ := h.own
    obtain ⟨n, hn, hdisabled⟩ := hdormant.exists_node
    simp only [hg, hg', Option.map_some, Graph.inputBridges_erase hn hdisabled.disabled,
      List.map_map]
    refine congrArg some (List.map_congr_left fun bridge _ => ?_)
    simp [Subscriber.raise]
  · rw [h.others i hi]
    cases graphs[i]? with
    | none => rfl
    | some g =>
      simp only [Option.map_some, List.map_map]
      refine congrArg some (List.map_congr_left fun bridge _ => ?_)
      simp [Subscriber.raise, hi]

/-- So the subscriber table is the raised one. -/
theorem subscriberTable_eq (h : ErasedAt m k graphs graphs') :
    subscriberTable graphs = raiseTable m k (subscriberTable graphs') := by
  rw [Engine.subscriberTable_eq, Engine.subscriberTable_eq, raiseTable_foldl, h.bridges_eq]
  rfl

end ErasedAt

/-! ### Engines with and without a node -/

/-- A job, by the number that its node has if node `k` of graph number `m` is there. -/
def Job.raise (m k : Nat) (job : Job) : Job :=
  { job with task := if job.runner = m then job.task.raise k else job.task }

variable {H : Type}

/-- Engines that do the same: graph number `m` of the first one has a dormant node `k`, which the
second one lacks. -/
structure Without (m k : Nat) (e e' : Engine H) : Prop where
  world_eq : e'.world = e.world
  settings_eq : e'.settings = e.settings
  generation_eq : e'.generation = e.generation
  scenes_eq : e'.scenes = e.scenes
  subscribers_eq : e.subscribers = raiseTable m k e'.subscribers
  others : ∀ i, i ≠ m → e'.runners[i]? = e.runners[i]?
  own : ∃ r r', e.runners[m]? = some r ∧ e'.runners[m]? = some r' ∧
    Runner.Erased k (r, e.world) (r', e'.world)

/-- A pass of graph number `m` has been cut short. -/
def Cut (m : Nat) (e : Engine H) : Prop :=
  ∃ r, e.runners[m]? = some r ∧ r.truncatedPasses ≠ 0

/-- The deliveries of a value are raised with the subscribers. -/
theorem deliveries_raise (subscribers : List Subscriber) (value : Value) :
    deliveries (subscribers.map (Subscriber.raise m k)) value =
      (deliveries subscribers value).map (Job.raise m k) := by
  rw [deliveries, deliveries, List.map_map, List.map_map]
  refine List.map_congr_left fun s _ => ?_
  by_cases hs : s.runner = m <;> simp [Subscriber.raise, Job.raise, Task.raise, hs]

namespace Without

variable {e e' : Engine H}

theorem context_eq (h : Without m k e e') : e'.context = e.context := by
  rw [context, context, h.generation_eq, h.settings_eq, h.scenes_eq]

theorem map_id (h : Without m k e e') :
    e'.runners.map (fun r => r.graph.id) = e.runners.map fun r => r.graph.id := by
  refine Array.ext_getElem? fun i => ?_
  rw [Array.getElem?_map, Array.getElem?_map]
  by_cases hi : i = m
  · obtain ⟨r, r', hr, hr', herased⟩ := h.own
    rw [hi, hr, hr', Option.map_some, Option.map_some, herased.graph_eq]
    rfl
  · rw [h.others i hi]

theorem findIdx?_eq (h : Without m k e e') (graph : String) :
    (e'.runners.findIdx? fun r => r.graph.id == graph) =
      e.runners.findIdx? fun r => r.graph.id == graph := by
  have hids := congrArg (Array.findIdx? (· == graph)) h.map_id
  rwa [Array.findIdx?_map, Array.findIdx?_map] at hids

/-- The host may do something on its own, and events may join the queue or leave it. -/
theorem withWorld (h : Without m k e e') (w : World H) :
    Without m k { e with world := w } { e' with world := w } := by
  obtain ⟨r, r', hr, hr', herased⟩ := h.own
  exact ⟨rfl, h.settings_eq, h.generation_eq, h.scenes_eq, h.subscribers_eq, h.others, r, r', hr,
    hr', herased.dormant, herased.graph_eq, herased.whole, rfl⟩

/-- An event is handled by the same jobs. -/
theorem jobs_eq (h : Without m k e e') (event : Event) :
    e.jobs event = (e'.jobs event).map (Job.raise m k) := by
  cases event with
  | change c =>
    rw [jobs, jobs, h.subscribers_eq, receivers_raiseTable, deliveries_raise]
  | timer fire =>
    rw [jobs, jobs, h.generation_eq, h.findIdx?_eq]
    split
    · rfl
    · cases e.runners.findIdx? fun r => r.graph.id == fire.graph with
      | none => rfl
      | some i => simp [Job.raise, Task.raise]

end Without

variable [Host H] {e e' e₁ : Engine H} {limit : Nat}

/-- A pass that has been cut short stays counted. -/
theorem Cut.perform (h : e.Cut m) (job : Job) : (e.perform job).Cut m := by
  obtain ⟨r, hr, hcut⟩ := h
  cases hjob : e.runners[job.runner]? with
  | none =>
    rw [Engine.perform, updateRunner, hjob]
    exact ⟨r, hr, hcut⟩
  | some r' =>
    rw [Engine.perform, updateRunner_eq hjob, Cut]
    by_cases hm : job.runner = m
    · subst hm
      obtain rfl : r = r' := Option.some.inj (hr.symm.trans hjob)
      refine ⟨_, getElem?_setIfInBounds_of_some hr, ?_⟩
      exact (Runner.kept_truncated H).perform job.task hcut
    · exact ⟨r, (Array.getElem?_setIfInBounds_ne hm).trans hr, hcut⟩

theorem Cut.performAll (h : e.Cut m) (jobs : List Job) : (jobs.foldl Engine.perform e).Cut m :=
  List.foldlRecOn jobs _ h fun _ h job _ => h.perform job

theorem Cut.handle (h : e.Cut m) (event : Event) : (e.handle event).Cut m := by
  rw [handle_eq]
  exact h.performAll _

namespace Without

/-- A job for graph number `m` is done in both, unless it cuts a pass short. -/
theorem perform_own (h : Without m k e e') (task : Task) :
    (e.perform ⟨m, task.raise k⟩).Cut m ∨
      Without m k (e.perform ⟨m, task.raise k⟩) (e'.perform ⟨m, task⟩) := by
  obtain ⟨r, r', hr, hr', herased⟩ := h.own
  rw [Engine.perform, Engine.perform, h.context_eq, updateRunner_eq hr, updateRunner_eq hr']
  by_cases hwhole : (r.perform e.context e.world (task.raise k)).1.truncatedPasses = 0
  · have hdone := herased.perform task hwhole
    refine .inr ⟨hdone.world_eq, h.settings_eq, h.generation_eq, h.scenes_eq, h.subscribers_eq,
      fun j hj => ?_, _, _, getElem?_setIfInBounds_of_some hr,
      getElem?_setIfInBounds_of_some hr', hdone⟩
    exact (Array.getElem?_setIfInBounds_ne (Ne.symm hj)).trans
      ((h.others j hj).trans (Array.getElem?_setIfInBounds_ne (Ne.symm hj)).symm)
  · exact .inl ⟨_, getElem?_setIfInBounds_of_some hr, hwhole⟩

/-- A job for another graph is done in both. -/
theorem perform_other (h : Without m k e e') {job : Job} (hjob : job.runner ≠ m) :
    Without m k (e.perform job) (e'.perform job) := by
  have hfound := h.others job.runner hjob
  rw [Engine.perform, Engine.perform, h.context_eq]
  cases hr₁ : e.runners[job.runner]? with
  | none =>
    rw [updateRunner, updateRunner, hfound, hr₁]
    exact h
  | some r₁ =>
    rw [hr₁] at hfound
    rw [updateRunner_eq hr₁, updateRunner_eq hfound, h.world_eq]
    -- graph number `m` stays as it is, with the node and without it
    obtain ⟨r, r', hr, hr', herased⟩ := h.own
    refine ⟨rfl, h.settings_eq, h.generation_eq, h.scenes_eq, h.subscribers_eq, fun j hj => ?_, r,
      r', (Array.getElem?_setIfInBounds_ne hjob).trans hr,
      (Array.getElem?_setIfInBounds_ne hjob).trans hr', herased.dormant, herased.graph_eq,
      herased.whole, rfl⟩
    by_cases hj' : job.runner = j
    · subst hj'
      dsimp only
      rw [getElem?_setIfInBounds_of_some hr₁, getElem?_setIfInBounds_of_some hfound]
    · exact (Array.getElem?_setIfInBounds_ne hj').trans
        ((h.others j hj).trans (Array.getElem?_setIfInBounds_ne hj').symm)

/-- A job for the graph without the node is done as the raised job for the whole graph. -/
theorem perform (h : Without m k e e') (job : Job) :
    (e.perform (job.raise m k)).Cut m ∨
      Without m k (e.perform (job.raise m k)) (e'.perform job) := by
  rw [Job.raise]
  split
  · next hjob =>
    subst hjob
    exact h.perform_own job.task
  · next hjob => exact .inr (h.perform_other hjob)

theorem performAll (h : Without m k e e') (jobs : List Job) :
    ((jobs.map (Job.raise m k)).foldl Engine.perform e).Cut m ∨
      Without m k ((jobs.map (Job.raise m k)).foldl Engine.perform e)
        (jobs.foldl Engine.perform e') := by
  induction jobs generalizing e e' with
  | nil => exact .inr h
  | cons job rest ih =>
    rcases h.perform job with hcut | h
    · exact .inl (hcut.performAll _)
    · exact ih h

theorem handle (h : Without m k e e') (event : Event) :
    (e.handle event).Cut m ∨ Without m k (e.handle event) (e'.handle event) := by
  rw [handle_eq, handle_eq, h.jobs_eq event]
  exact h.performAll _

end Without

theorem Cut.connectAll (h : e.Cut m) (table : Dictionary (List Subscriber)) :
    (table.foldl Engine.connect e).Cut m := by
  refine List.foldlRecOn table _ h fun e h entry _ => ?_
  rw [connect_eq_jobs]
  exact Cut.performAll (e := e.subscribed entry.1) h _

/-! ### Requests -/

theorem Cut.settle (h : e.Cut m) (hsettle : settle limit e = some e₁) : e₁.Cut m := by
  refine (settle_induct ?_ hsettle h).1
  intro e e' hturn h
  obtain ⟨event, rest, -, rfl⟩ := turn?_eq_some hturn
  exact Cut.handle (e := e.withQueue rest) h event

theorem Cut.advanceTo {turns target fired n : Nat} (h : e.Cut m)
    (hadvance : (owner turns).advanceTo target limit fired e = some (n, e₁)) : e₁.Cut m := by
  refine Owner.advanceTo_induct (P := Cut m) ?_ (fun h => h) hadvance h
  intro e fire t e' _ hfire h
  exact Cut.settle (e := withQueue { e with world := e.world.withTimeline t } _) h hfire

theorem Cut.serve {request : Request H} (h : e.Cut m)
    (hrequest : (∀ c, request ≠ .load c) ∧ request ≠ .stop)
    (hserve : e.serve limit request = some e₁) : e₁.Cut m := by
  cases serve_outcome hserve with
  | load => exact (hrequest.1 _ rfl).elim
  | stop => exact (hrequest.2 rfl).elim
  | @handled c _ hsettle => exact Cut.settle (e := e.act (.post (.change c))) h hsettle
  | advance hadvance => exact h.advanceTo hadvance
  | ignored | shiftLocal | host => exact h

theorem Cut.serveAll {requests : List (Request H)} (h : e.Cut m)
    (hrequests : ∀ request ∈ requests, (∀ c, request ≠ .load c) ∧ request ≠ .stop)
    (hserve : e.serveAll limit requests = some e₁) : e₁.Cut m := by
  induction requests generalizing e with
  | nil =>
    cases hserve
    exact h
  | cons request rest ih =>
    obtain ⟨e₂, hfirst, hrest⟩ := Option.bind_eq_some_iff.1 hserve
    exact ih (h.serve (hrequests request List.mem_cons_self) hfirst)
      (fun r hr => hrequests r (List.mem_cons_of_mem _ hr)) hrest

namespace Without

/-- The same turns are needed until no event waits. -/
theorem settle (h : Without m k e e') (hsettle : Engine.settle limit e = some e₁) :
    e₁.Cut m ∨ ∃ e₁', Engine.settle limit e' = some e₁' ∧ Without m k e₁ e₁' := by
  induction limit generalizing e e' with
  | zero =>
    unfold Engine.settle turn? at hsettle ⊢
    rw [h.world_eq]
    cases hqueue : e.world.queue with
    | nil =>
      rw [hqueue] at hsettle
      cases hsettle
      exact .inr ⟨e', rfl, h⟩
    | cons event rest =>
      rw [hqueue] at hsettle
      cases hsettle
  | succ limit ih =>
    unfold Engine.settle turn? at hsettle ⊢
    rw [h.world_eq]
    cases hqueue : e.world.queue with
    | nil =>
      rw [hqueue] at hsettle
      cases hsettle
      exact .inr ⟨e', rfl, h⟩
    | cons event rest =>
      rw [hqueue] at hsettle
      -- the first event is handled on both sides, or a pass is cut short on the way
      rcases (h.withWorld { e.world with queue := rest }).handle event with hcut | hturn
      · exact .inl (hcut.settle hsettle)
      · exact ih hturn hsettle

theorem submit (h : Without m k e e') {event : Event} (hsubmit : e.submit limit event = some e₁) :
    e₁.Cut m ∨ ∃ e₁', e'.submit limit event = some e₁' ∧ Without m k e₁ e₁' := by
  unfold Engine.submit at hsubmit ⊢
  rw [h.world_eq]
  exact settle (h.withWorld _) hsubmit

/-- The same timers fall due. -/
theorem advanceTo {turns target fired n : Nat} (h : Without m k e e')
    (hadvance : (owner turns).advanceTo target limit fired e = some (n, e₁)) :
    e₁.Cut m ∨ ∃ e₁', (owner turns).advanceTo target limit fired e' = some (n, e₁') ∧
      Without m k e₁ e₁' := by
  induction limit using Nat.strongRecOn generalizing fired e e' with
  | ind limit ih =>
    -- timers wait in the world, and the worlds are the same
    have htimeline : (owner turns).timeline e' = (owner turns).timeline e :=
      congrArg World.timeline h.world_eq
    have hmoved (t : Timeline Fire) :
        Without m k ((owner turns).withTimeline e t) ((owner turns).withTimeline e' t) := by
      show Without m k { e with world := e.world.withTimeline t }
        { e' with world := e'.world.withTimeline t }
      rw [h.world_eq]
      exact h.withWorld _
    rcases Owner.advanceTo_cases hadvance with
      ⟨hnone, -⟩ | ⟨rest, fire, t, e₂, rfl, hpop, hfire, hrest⟩
    · rw [Owner.advanceTo_of_none hnone] at hadvance
      cases hadvance
      refine .inr ⟨_, Owner.advanceTo_of_none (htimeline ▸ hnone) limit _, ?_⟩
      rw [htimeline]
      exact hmoved _
    · rcases (hmoved t).submit hfire with hcut | ⟨e₂', hfire', h₂⟩
      · exact .inl (hcut.advanceTo hrest)
      · rw [Owner.advanceTo_of_some (htimeline ▸ hpop) hfire']
        exact ih rest (Nat.lt_succ_self rest) h₂ hrest

theorem serve {request : Request H} (h : Without m k e e')
    (hrequest : (∀ c, request ≠ .load c) ∧ request ≠ .stop)
    (hserve : e.serve limit request = some e₁) :
    e₁.Cut m ∨ ∃ e₁', e'.serve limit request = some e₁' ∧ Without m k e₁ e₁' := by
  cases request with
  | load c => exact (hrequest.1 c rfl).elim
  | stop => exact (hrequest.2 rfl).elim
  | change c =>
    dsimp only [Engine.serve, change] at hserve ⊢
    rw [h.world_eq]
    split
    · next hregistered =>
      rw [if_pos hregistered] at hserve
      exact h.submit hserve
    · next hregistered =>
      rw [if_neg hregistered] at hserve
      cases hserve
      exact .inr ⟨e', rfl, h⟩
  | advance millis =>
    obtain ⟨⟨n, e₁⟩, hadvance, rfl⟩ := Option.map_eq_some_iff.1 hserve
    refine (h.advanceTo hadvance).imp_right fun ⟨e₁', hadvance', h'⟩ => ⟨e₁', ?_, h'⟩
    -- the clocks are the same, so both sides are to reach the same time
    rw [show (owner limit).timeline e = (owner limit).timeline e' from
      congrArg World.timeline h.world_eq.symm] at hadvance'
    exact congrArg (Option.map Prod.snd) hadvance'
  | shiftLocal millis =>
    cases hserve
    refine .inr ⟨_, rfl, ?_⟩
    unfold Engine.shiftLocal
    rw [h.world_eq]
    exact h.withWorld _
  | host host =>
    cases hserve
    refine .inr ⟨_, rfl, ?_⟩
    rw [h.world_eq]
    exact h.withWorld _

/-- Requests that neither load nor stop anything are served alike, unless a pass of graph number `m`
is cut short. -/
theorem serveAll {requests : List (Request H)} (h : Without m k e e')
    (hrequests : ∀ request ∈ requests, (∀ c, request ≠ .load c) ∧ request ≠ .stop)
    (hserve : e.serveAll limit requests = some e₁) :
    e₁.Cut m ∨ ∃ e₁', e'.serveAll limit requests = some e₁' ∧ Without m k e₁ e₁' := by
  induction requests generalizing e e' with
  | nil =>
    cases hserve
    exact .inr ⟨e', rfl, h⟩
  | cons request rest ih =>
    obtain ⟨e₂, hfirst, hrest⟩ := Option.bind_eq_some_iff.1 hserve
    have hlater := fun r hr => hrequests r (List.mem_cons_of_mem _ hr)
    rcases h.serve (hrequests request List.mem_cons_self) hfirst with hcut | ⟨e₂', hfirst', h₂⟩
    · exact .inl (hcut.serveAll hlater hrest)
    · refine (ih h₂ hlater hrest).imp_right fun ⟨e₁', hrest', h₁⟩ => ⟨e₁', ?_, h₁⟩
      rw [Engine.serveAll, hfirst', Option.bind_some, hrest']

end Without

/-! ### Loads -/

omit [Host H] in
/-- The timers of a graph are cancelled one after the other, in the order of its nodes. -/
theorem cancelTimers_eq (w : World H) (r : Runner) :
    cancelTimers w r = (r.graph.nodes.toList.flatMap Node.timers).foldl World.cancelTimer w := by
  rw [List.foldl_flatMap, Array.foldl_toList]
  rfl

namespace Without

omit [Host H] in
/-- The dormant node holds no timer that could be cancelled. -/
theorem cancelTimers_eq (h : Without m k e e') :
    (e'.runners.map fun r w => cancelTimers w r) =
      e.runners.map fun r (w : World H) => cancelTimers w r := by
  refine Array.ext_getElem? fun i => ?_
  rw [Array.getElem?_map, Array.getElem?_map]
  by_cases hi : i = m
  · -- all timers of the graph belong to the nodes that are left
    obtain ⟨r, r', hr, hr', herased⟩ := h.own
    obtain ⟨n, hn, hdormant⟩ := herased.dormant.exists_node
    have htimers : r'.graph.nodes.toList.flatMap Node.timers =
        r.graph.nodes.toList.flatMap Node.timers := by
      rw [herased.graph_eq]
      refine flatMap_eraseIdx fun a ha => ?_
      rw [Array.getElem?_toList, hn, Option.some_inj] at ha
      rw [← ha, hdormant.timers]
    rw [hi, hr, hr', Option.map_some, Option.map_some, Option.some_inj]
    funext w
    rw [Engine.cancelTimers_eq, Engine.cancelTimers_eq, htimers]
  · rw [h.others i hi]

/-- A dormant node has no timers, so a teardown makes no difference. -/
theorem teardown_eq (h : Without m k e e') : e'.teardown = e.teardown := by
  have hcancelled : ∀ e : Engine H, e.runners.foldl cancelTimers e.world =
      (e.runners.map fun r w => cancelTimers w r).foldl (fun w f => f w) e.world := by
    intro e
    rw [Array.foldl_map]
  have hkeys : e'.subscribers.keys = e.subscribers.keys := by
    rw [h.subscribers_eq, raiseTable, Dictionary.keys_mapValues]
  unfold teardown
  rw [hcancelled, hcancelled, h.cancelTimers_eq, hkeys, h.world_eq, h.settings_eq, h.generation_eq,
    h.scenes_eq]

theorem subscribed (h : Without m k e e') (signal : String) :
    Without m k (e.subscribed signal) (e'.subscribed signal) := by
  rw [Engine.subscribed, Engine.subscribed, h.world_eq]
  exact h.withWorld _

/-- Connecting a signal injects its value at the raised subscribers. -/
theorem connect (h : Without m k e e') (entry : String × List Subscriber) :
    (e.connect (entry.map id (List.map (Subscriber.raise m k)))).Cut m ∨
      Without m k (e.connect (entry.map id (List.map (Subscriber.raise m k))))
        (e'.connect entry) := by
  obtain ⟨signal, subscribers⟩ := entry
  have hvalue : e'.initialValue? signal = e.initialValue? signal := by
    rw [initialValue?, initialValue?, h.world_eq]
  have harrivals : arrivals (subscribers.map (Subscriber.raise m k)) (e.initialValue? signal) =
      (arrivals subscribers (e.initialValue? signal)).map (Job.raise m k) := by
    cases e.initialValue? signal with
    | none => rfl
    | some value => exact deliveries_raise subscribers value
  rw [connect_eq_jobs, connect_eq_jobs, hvalue]
  have hperformed :=
    (h.subscribed signal).performAll (arrivals subscribers (e.initialValue? signal))
  rw [← harrivals] at hperformed
  exact hperformed

theorem connectAll (h : Without m k e e') (table : Dictionary (List Subscriber)) :
    ((raiseTable m k table).foldl Engine.connect e).Cut m ∨
      Without m k ((raiseTable m k table).foldl Engine.connect e)
        (table.foldl Engine.connect e') := by
  induction table generalizing e e' with
  | nil => exact .inr h
  | cons entry rest ih =>
    rcases h.connect entry with hcut | h
    · exact .inl (hcut.connectAll _)
    · exact ih h

/-- Priming does nothing to a dormant node and the same to all others. -/
theorem primeAll (h : Without m k e e') (n : Nat) :
    ((List.range n).foldl primeRunner e).Cut m ∨
      Without m k ((List.range n).foldl primeRunner e) ((List.range n).foldl primeRunner e') := by
  have hprimings : primings n = (primings n).map (Job.raise m k) := by
    rw [primings, List.map_map]
    refine List.map_congr_left fun i _ => ?_
    simp [Job.raise, Task.raise]
  have hprimed := h.performAll (primings n)
  rw [← hprimings] at hprimed
  rw [primeAll_eq_jobs, primeAll_eq_jobs]
  exact hprimed

end Without

/-- Two configurations whose graphs are the same up to a dormant node are loaded alike. -/
theorem ErasedAt.install {c c' : Configuration} (e : Engine H) (hscenes : c'.scenes = c.scenes)
    (h : ErasedAt m k (buildGraphs [] c.graphs).1 (buildGraphs [] c'.graphs).1) :
    (e.install c).2.Cut m ∨ Without m k (e.install c).2 (e.install c').2 := by
  have hrunner (gs : List Graph) (i : Nat) :
      (gs.map fun g => ({ graph := g } : Runner)).toArray[i]? =
        gs[i]?.map fun g => { graph := g } := by
    rw [List.getElem?_toArray, List.getElem?_map]
  have hassembled : Without m k (e.assemble c) (e.assemble c') := by
    obtain ⟨g, hg, hdormant, hg'⟩ := h.own
    refine ⟨rfl, rfl, rfl, hscenes, h.subscriberTable_eq, fun i hi => ?_, _, _,
      (hrunner _ m).trans (congrArg _ hg), (hrunner _ m).trans (congrArg _ hg'), hdormant, rfl, rfl,
      rfl⟩
    exact (hrunner _ i).trans ((congrArg _ (h.others i hi)).trans (hrunner _ i).symm)
  rw [install_eq, install_eq, h.length_eq, h.subscriberTable_eq]
  rcases hassembled.connectAll (subscriberTable (buildGraphs [] c'.graphs).1) with hcut | h
  · left
    rw [primeAll_eq_jobs]
    exact hcut.performAll _
  · exact h.primeAll _

theorem serve_load (e : Engine H) (limit : Nat) (c : Configuration) :
    e.serve limit (.load c) = (e.install c).2.settle limit := by
  show (((e.install c).2.settle limit).map fun e => ((e.install c).1, e)).map Prod.snd = _
  rw [Option.map_map]
  exact Option.map_id'

/-- Requests that follow the load are served alike, unless a pass of graph number `m` is cut
short. -/
theorem ErasedAt.serveAll {c c' : Configuration} {requests : List (Request H)}
    (h : ErasedAt m k (buildGraphs [] c.graphs).1 (buildGraphs [] c'.graphs).1)
    (hscenes : c'.scenes = c.scenes)
    (hrequests : ∀ request ∈ requests, (∀ c, request ≠ .load c) ∧ request ≠ .stop)
    (hserve : e.serveAll limit (.load c :: requests) = some e₁) :
    e₁.Cut m ∨ ∃ e₁', e.serveAll limit (.load c' :: requests) = some e₁' ∧ Without m k e₁ e₁' := by
  rw [Engine.serveAll, serve_load] at hserve ⊢
  obtain ⟨e₂, hload, hrest⟩ := Option.bind_eq_some_iff.1 hserve
  rcases h.install e hscenes with hcut | hinstalled
  · exact .inl ((hcut.settle hload).serveAll hrequests hrest)
  · rcases hinstalled.settle hload with hcut | ⟨e₂', hload', h₂⟩
    · exact .inl (hcut.serveAll hrequests hrest)
    · rw [hload', Option.bind_some]
      exact h₂.serveAll hrequests hrest

end Engine

end SignalGraph
