import SignalGraph.Proofs.Engine.Abreast

/-!
# Observers side by side

Two observers of a graph are side by side (`Observed.Beside`) if their engines are abreast and they
have noted down the same calls. They stay so when the first one does any jobs and the second one
those among them that are for the graph (`Beside.performAll`), and when signals are connected
(`Beside.connectAll`), as long as both see the same values (`Engine.Level`). So they are side by
side after one has loaded a configuration and the other one a graph that stands apart in it
(`Observed.exists_even_install`).
-/

namespace SignalGraph

namespace Engine

/-! ### What jobs leave alone -/

section Agrees

variable {e e' : Engine (Logged MemoryHost)} {signals : String → Prop} {job : Job}

/-- A graph that is evaluated on its inputs leaves the values alone that it does not write to. -/
theorem perform_agrees {h : MemoryHost}
    (hspares : ∀ r, e.runners[job.runner]? = some r →
      r.graph.Spares (h.sceneSignals e.scenes) signals)
    (htask : ∀ fire, job.task ≠ .fire fire) (he : e.world.Agrees h signals) :
    (e.perform job).world.Agrees h signals := by
  obtain ⟨i, task⟩ := job
  cases hr : e.runners[i]? with
  | none =>
    unfold perform updateRunner
    rw [hr]
    exact he
  | some r =>
    rw [perform, updateRunner_eq hr]
    cases task with
    | receive node value =>
      exact Runner.inject_agrees (Runner.inject_outcome e.context r e.world node value)
        (hspares r hr) he
    | prime => exact Runner.prime_agrees (hspares r hr) he
    | fire fire => exact (htask fire rfl).elim

theorem scenes_perform (e : Engine (Logged MemoryHost)) (job : Job) :
    (e.perform job).scenes = e.scenes := by
  unfold perform updateRunner
  split <;> rfl

/-- The signals of scenes stay the same. -/
theorem sceneSignals_perform (htask : ∀ fire, job.task ≠ .fire fire) :
    (e.perform job).world.host.host.sceneSignals (e.perform job).scenes =
      e.world.host.host.sceneSignals e.scenes := by
  have hagrees : (e.perform job).world.Agrees e.world.host.host fun _ => False :=
    perform_agrees (fun _ _ _ _ _ hsignal => hsignal) htask ⟨rfl, fun _ hsignal => hsignal.elim⟩
  rw [scenes_perform]
  exact MemoryHost.sceneSignals_congr hagrees.devices_eq e.scenes

end Agrees

/-! ### The same time and the same values -/

/-- Two engines show the same time, and their hosts have the same values of certain signals; the
signals of scenes are known. -/
structure Level (scenes : String → Option String) (signals : String → Prop)
    (e e' : Engine (Logged MemoryHost)) : Prop where
  sceneSignals_eq : e.world.host.host.sceneSignals e.scenes = scenes
  elapsed_eq : e'.world.clock.elapsed = e.world.clock.elapsed
  value?_eq : ∀ signal, signals signal →
    e'.world.host.host.value? signal = e.world.host.host.value? signal

/-- The jobs of one graph in a list, as those of the only graph. -/
def ownJobs (k : Nat) (jobs : List Job) : List Job :=
  (jobs.filter fun job => job.runner == k).map fun job => ⟨0, job.task⟩

theorem ownJobs_cons (k : Nat) (job : Job) (rest : List Job) :
    ownJobs k (job :: rest) =
      if job.runner = k then ⟨0, job.task⟩ :: ownJobs k rest else ownJobs k rest := by
  unfold ownJobs
  rw [List.filter_cons]
  by_cases hjob : job.runner = k
  · rw [if_pos (beq_iff_eq.2 hjob), if_pos hjob, List.map_cons]
  · rw [if_neg (fun h => hjob (beq_iff_eq.1 h)), if_neg hjob]

theorem ownJobs_deliveries (k : Nat) (subscribers : List Subscriber) (value : Value) :
    ownJobs k (deliveries subscribers value) = deliveries (ownSubscribers k subscribers) value := by
  rw [ownJobs, deliveries, deliveries, ownSubscribers, List.filter_map, List.map_map, List.map_map]
  rfl

theorem ownJobs_arrivals (k : Nat) (subscribers : List Subscriber) (value? : Option Value) :
    ownJobs k (arrivals subscribers value?) = arrivals (ownSubscribers k subscribers) value? := by
  cases value? with
  | none => rfl
  | some value => exact ownJobs_deliveries k subscribers value

/-- The hosts are called, and signals are registered. -/
theorem Abreast.calls {graph : String} {k : Nat} {c : Configuration} {r r' : Runner}
    {e e' : Engine (Logged MemoryHost)} (h : Abreast graph k c r r' e e')
    {host host' : Logged MemoryHost} (registered registered' : List String)
    (hdevices : host'.host.devices = host.host.devices)
    (hreadOnly : host'.host.readOnly = host.host.readOnly) :
    Abreast graph k c r r'
      { e with world := { e.world with host := host, registered := registered } }
      { e' with world := { e'.world with host := host', registered := registered' } } :=
  { h with tied := h.tied.calls registered registered' hdevices hreadOnly }

end Engine

namespace Observed

open Engine

/-! ### Notes -/

section Notes

variable {H : Type} [Host H] {graph : String} {o : Observed H} {job : Job} {r : Runner}

theorem notes_perform {entries : List HostEntry} (hr : o.engine.runners[job.runner]? = some r)
    (hid : r.graph.id = graph)
    (hlog : (o.engine.perform job).world.host.log = o.engine.world.host.log ++ entries) :
    (o.perform graph job).notes = o.notes ++ entries := by
  unfold perform
  rw [hr, Option.map_some, hid, hlog, List.drop_left]
  exact if_pos rfl

theorem notes_perform_of_ne (h : ∀ r, o.engine.runners[job.runner]? = some r → r.graph.id ≠ graph) :
    (o.perform graph job).notes = o.notes := by
  unfold perform
  refine if_neg fun hid => ?_
  obtain ⟨r, hr, hid⟩ := Option.map_eq_some_iff.1 hid
  exact h r hr hid

end Notes

/-! ### Side by side -/

/-- The first observer watches the graph with this id in company, as number `k` of those that run
for `c`, the second one watches it alone, and they have noted down the same calls. -/
structure Beside (graph : String) (k : Nat) (c : Configuration) (o o' : Observed MemoryHost) :
    Prop where
  abreast : ∃ r r', Abreast graph k c r r' o.engine o'.engine
  notes_eq : o'.notes = o.notes

/-- The two are side by side, at the same time. -/
structure Even (graph : String) (k : Nat) (c : Configuration) (o o' : Observed MemoryHost) : Prop
    extends Beside graph k c o o' where
  elapsed_eq : o'.engine.world.clock.elapsed = o.engine.world.clock.elapsed

namespace Beside

variable {graph : String} {k : Nat} {c : Configuration} {o o' : Observed MemoryHost}
  {scenes : String → Option String} {signals : String → Prop}

/-- Both do a job for the graph. -/
theorem perform_own (h : Beside graph k c o o') (hlevel : Level scenes signals o.engine o'.engine)
    {task : Task} (htask : ∀ fire, task ≠ .fire fire) :
    Beside graph k c (o.perform graph ⟨k, task⟩) (o'.perform graph ⟨0, task⟩) ∧
      Level scenes signals (o.engine.perform ⟨k, task⟩) (o'.engine.perform ⟨0, task⟩) := by
  obtain ⟨r, r', habreast⟩ := h.abreast
  obtain ⟨r₂, r₂', hdone, hlockstep⟩ :=
    habreast.perform_own hlevel.elapsed_eq hlevel.value?_eq htask
  obtain ⟨entries, hlog, hlog'⟩ := hlockstep.exists_entries
  refine ⟨⟨⟨r₂, r₂', hdone⟩, ?_⟩, ?_, ?_, hlockstep.value?_eq⟩
  · rw [notes_perform habreast.runner habreast.id_eq hlog,
      notes_perform habreast.runner' habreast.id_eq' hlog', h.notes_eq]
  · rw [sceneSignals_perform htask]
    exact hlevel.sceneSignals_eq
  · exact hlockstep.elapsed_eq'.trans hlockstep.elapsed_eq.symm

/-- The first one does a job for another graph, which spares what both have to see alike. -/
theorem perform_other (h : Beside graph k c o o') (hlevel : Level scenes signals o.engine o'.engine)
    (hspares : ∀ (i : Nat) g, (buildGraphs [] c.graphs).1[i]? = some g → i ≠ k →
      g.Spares scenes signals) {job : Job} (hjob : job.runner ≠ k)
    (htask : ∀ fire, job.task ≠ .fire fire) :
    Beside graph k c (o.perform graph job) o' ∧
      Level scenes signals (o.engine.perform job) o'.engine := by
  obtain ⟨r, r', habreast⟩ := h.abreast
  obtain ⟨hdone, helapsed⟩ := habreast.perform_other hjob htask
  have hagrees : (o.engine.perform job).world.Agrees o.engine.world.host.host signals := by
    refine perform_agrees (fun r₂ hr₂ => ?_) htask ⟨rfl, fun _ _ => rfl⟩
    obtain ⟨g, hg, halong⟩ := habreast.runs job.runner r₂ hr₂
    rw [hlevel.sceneSignals_eq]
    exact (hspares job.runner g hg hjob).along halong
  refine ⟨⟨⟨r, r', hdone⟩, ?_⟩, ?_, ?_, fun signal hsignal => ?_⟩
  · rw [notes_perform_of_ne fun r₂ hr₂ => habreast.id_ne hr₂ hjob]
    exact h.notes_eq
  · rw [sceneSignals_perform htask]
    exact hlevel.sceneSignals_eq
  · rw [helapsed]
    exact hlevel.elapsed_eq
  · rw [hagrees.value?_eq signal hsignal]
    exact hlevel.value?_eq signal hsignal

/-- The first one does jobs, and the second one those among them that are for the graph. -/
theorem performAll (h : Beside graph k c o o') (hlevel : Level scenes signals o.engine o'.engine)
    (hspares : ∀ (i : Nat) g, (buildGraphs [] c.graphs).1[i]? = some g → i ≠ k →
      g.Spares scenes signals) {jobs : List Job}
    (hjobs : ∀ job ∈ jobs, ∀ fire, job.task ≠ .fire fire) :
    Beside graph k c (o.performAll graph jobs) (o'.performAll graph (ownJobs k jobs)) ∧
      Level scenes signals (o.performAll graph jobs).engine
        (o'.performAll graph (ownJobs k jobs)).engine := by
  induction jobs generalizing o o' with
  | nil => exact ⟨h, hlevel⟩
  | cons job rest ih =>
    have hrest : ∀ job ∈ rest, ∀ fire, job.task ≠ .fire fire :=
      fun job hjob => hjobs job (List.mem_cons_of_mem _ hjob)
    by_cases hjob : job.runner = k
    · obtain ⟨i, task⟩ := job
      obtain rfl : i = k := hjob
      obtain ⟨hnext, hnextLevel⟩ := h.perform_own hlevel (hjobs _ List.mem_cons_self)
      rw [ownJobs_cons, if_pos rfl]
      exact ih hnext hnextLevel hrest
    · obtain ⟨hnext, hnextLevel⟩ :=
        h.perform_other hlevel hspares hjob (hjobs _ List.mem_cons_self)
      rw [ownJobs_cons, if_neg hjob]
      exact ih hnext hnextLevel hrest

/-! ### Signals that are connected -/

/-- The first one subscribes to a signal and reads its value. -/
theorem subscribed_first (h : Beside graph k c o o')
    (hlevel : Level scenes signals o.engine o'.engine) (signal : String) :
    Beside graph k c (o.withEngine (o.engine.subscribed signal)) o' ∧
      Level scenes signals (o.engine.subscribed signal) o'.engine := by
  obtain ⟨r, r', habreast⟩ := h.abreast
  have htied := habreast.tied
  exact ⟨⟨⟨r, r', habreast.calls _ o'.engine.world.registered htied.devices_eq htied.readOnly_eq⟩,
    h.notes_eq⟩, hlevel.sceneSignals_eq, hlevel.elapsed_eq, hlevel.value?_eq⟩

/-- Both subscribe to a signal and read its value. -/
theorem subscribed_both (h : Beside graph k c o o')
    (hlevel : Level scenes signals o.engine o'.engine) (signal : String) :
    Beside graph k c (o.withEngine (o.engine.subscribed signal))
        (o'.withEngine (o'.engine.subscribed signal)) ∧
      Level scenes signals (o.engine.subscribed signal) (o'.engine.subscribed signal) := by
  obtain ⟨r, r', habreast⟩ := h.abreast
  have htied := habreast.tied
  exact ⟨⟨⟨r, r', habreast.calls _ _ htied.devices_eq htied.readOnly_eq⟩, h.notes_eq⟩,
    hlevel.sceneSignals_eq, hlevel.elapsed_eq, hlevel.value?_eq⟩

theorem connect_eq {H : Type} [Host H] (graph : String) (o : Observed H)
    (entry : String × List Subscriber) : o.connect graph entry =
      (o.withEngine (o.engine.subscribed entry.1)).performAll graph
        (arrivals entry.2 (o.engine.initialValue? entry.1)) := by
  unfold connect arrivals
  cases o.engine.initialValue? entry.1 <;> rfl

/-- A load connects all signals for the first one, and those that the graph reads for the second
one. -/
theorem connectAll (h : Beside graph k c o o') (hlevel : Level scenes signals o.engine o'.engine)
    (hspares : ∀ (i : Nat) g, (buildGraphs [] c.graphs).1[i]? = some g → i ≠ k →
      g.Spares scenes signals) {table : Dictionary (List Subscriber)}
    (hreads : ∀ entry ∈ table, ownSubscribers k entry.2 ≠ [] → signals entry.1) :
    Beside graph k c (table.foldl (connect graph) o) ((ownTable k table).foldl (connect graph) o') ∧
      Level scenes signals (table.foldl (connect graph) o).engine
        ((ownTable k table).foldl (connect graph) o').engine := by
  induction table generalizing o o' with
  | nil => exact ⟨h, hlevel⟩
  | cons entry rest ih =>
    have hrest : ∀ entry ∈ rest, ownSubscribers k entry.2 ≠ [] → signals entry.1 :=
      fun entry hentry => hreads entry (List.mem_cons_of_mem _ hentry)
    have htasks : ∀ job ∈ arrivals entry.2 (o.engine.initialValue? entry.1),
        ∀ fire, job.task ≠ .fire fire := fun _ hjob => task_ne_of_mem_arrivals hjob
    rw [ownTable_cons, List.foldl_cons, connect_eq]
    split
    · next hown =>
      obtain ⟨hnext, hnextLevel⟩ := h.subscribed_first hlevel entry.1
      obtain ⟨hdone, hdoneLevel⟩ := hnext.performAll hnextLevel hspares htasks
      have hnone : ownJobs k (arrivals entry.2 (o.engine.initialValue? entry.1)) = [] := by
        rw [ownJobs_arrivals, hown]
        cases o.engine.initialValue? entry.1 <;> rfl
      rw [hnone] at hdone hdoneLevel
      exact ih hdone hdoneLevel hrest
    · next hown =>
      -- both find the same value
      have hvalue : o'.engine.initialValue? entry.1 = o.engine.initialValue? entry.1 :=
        hlevel.value?_eq entry.1 (hreads entry List.mem_cons_self hown)
      obtain ⟨hnext, hnextLevel⟩ := h.subscribed_both hlevel entry.1
      obtain ⟨hdone, hdoneLevel⟩ := hnext.performAll hnextLevel hspares htasks
      rw [ownJobs_arrivals] at hdone hdoneLevel
      rw [List.foldl_cons, connect_eq, hvalue]
      exact ih hdone hdoneLevel hrest

end Beside

end Observed

/-! ### The start of a load -/

namespace World

variable {graph : String} {w : World (Logged MemoryHost)}

/-- A world in which nothing waits is tied to itself. -/
theorem tied_self (hservice : w.service = .shared) (hqueue : w.queue = [])
    (hpending : w.clock.pending = []) : Tied graph w w [] [] := by
  have hordered : w.clock.Ordered := Timeline.ordered_of_pending_eq_nil hpending
  have hbalanced : w.Balanced [] := by
    refine ⟨timeline_shared hservice ▸ hordered, ?_, fun _ => ?_⟩
    · rw [hqueue]
      exact fun _ hevent => nomatch hevent
    · rw [timeline_shared hservice, hpending]
      exact .nil
  refine ⟨hservice, hservice, hqueue, hqueue, rfl, rfl, hbalanced, (fun _ ha => nomatch ha), [],
    ?_, .nil⟩
  refine ⟨hordered, hordered, ?_, hpending, (fun _ hx => nomatch hx), rfl, rfl, Nat.le_refl _, ?_⟩
  · rw [hpending]
    rfl
  · rw [hpending]
    exact fun _ hentry => nomatch hentry

theorem devices_unsubscribe_all (signals : List String) (w : World (Logged MemoryHost)) :
    (signals.foldl World.unsubscribe w).host.host.devices = w.host.host.devices := by
  induction signals generalizing w with
  | nil => rfl
  | cons signal rest ih => exact ih (w.unsubscribe signal)

end World

namespace Engine

variable {e : Engine (Logged MemoryHost)} {c : Configuration} {d : GraphDecl} {k : Nat}

theorem devices_teardown (e : Engine (Logged MemoryHost)) :
    e.teardown.world.host.host.devices = e.world.host.host.devices := by
  have htimeline : ∀ (w : World (Logged MemoryHost)) t, w.host = e.world.host →
      (w.withTimeline t).host = e.world.host := by
    intro w t hw
    unfold World.withTimeline
    cases w.service <;> exact hw
  have hcancelled : (e.runners.foldl cancelTimers e.world).host = e.world.host := by
    rw [← Array.foldl_toList]
    exact List.foldlRecOn (motive := fun w : World (Logged MemoryHost) => w.host = e.world.host)
      _ _ rfl fun _ hw r _ =>
        cancelTimers_induct (P := fun w : World (Logged MemoryHost) => w.host = e.world.host)
          htimeline r hw
  have hlast := World.devices_unsubscribe_all e.subscribers.keys
    (e.runners.foldl cancelTimers e.world)
  rw [hcancelled] at hlast
  exact hlast

/-- At the start of a load, the graph is in the same state in company and alone. -/
theorem AtRest.abreast_assemble (h : AtRest e) (hservice : e.world.service = .shared)
    (halone : (buildGraphs [] [d]).1 = [(Graph.build d).1])
    (hk : (buildGraphs [] c.graphs).1[k]? = some (Graph.build d).1) :
    Abreast d.id k c { graph := (Graph.build d).1 } { graph := (Graph.build d).1 } (e.assemble c)
      (e.assemble { c with graphs := [d] }) := by
  have hfresh := Graph.fresh_build d
  have hforeign : foreign d.id (e.assemble c) = [] := by
    rw [foreign, armings_eq_nil (fresh_assemble e c), List.filter_nil]
  have hpairs : (Graph.build d).1.pairings (e.generation + 1) (e.generation + 1) (Graph.build d).1 =
      [] := by
    have hfirst := Graph.map_fst_pairings_self (e.generation + 1) (Graph.build d).1
    rw [hfresh.armings_eq_nil] at hfirst
    exact List.map_eq_nil_iff.1 hfirst
  -- a teardown leaves no timer and no registration, so both worlds start empty
  have hworld : e.teardown.world =
      { host := e.teardown.world.host, clock := { e.world.clock with pending := [] }
        nextToken := e.world.nextToken } :=
    congrArg Engine.world (h.teardown_eq hservice fun _ _ => rfl)
  refine ⟨AllRunners.assemble fun i g hg => ⟨g, hg, .refl g⟩, rfl, sorted_subscriberTable _, ?_, ?_,
    ?_, Graph.id_build d, .refl _, rfl, rfl, ?_⟩
  · show subscriberTable (buildGraphs [] [d]).1 =
      ownTable k (subscriberTable (buildGraphs [] c.graphs).1)
    rw [halone, ownTable_subscriberTable hk]
  · show ((buildGraphs [] c.graphs).1.map fun g => ({ graph := g } : Runner)).toArray[k]? = _
    rw [List.getElem?_toArray, List.getElem?_map, hk, Option.map_some]
  · show ((buildGraphs [] [d]).1.map fun g => ({ graph := g } : Runner)).toArray = _
    rw [halone]
    rfl
  · rw [hforeign]
    show World.Tied d.id e.teardown.world e.teardown.world
      ((Graph.build d).1.pairings (e.generation + 1) (e.generation + 1) (Graph.build d).1) []
    rw [hpairs]
    refine World.tied_self ?_ ?_ ?_
    all_goals rw [hworld]

/-- Each graph is primed once. -/
theorem ownJobs_primings {n : Nat} (hk : k < n) : ownJobs k (primings n) = primings 1 := by
  have hown : (List.range n).filter (fun i => i == k) = [k] := by
    rw [List.filter_beq, List.count_eq_one_of_mem List.nodup_range (List.mem_range.2 hk)]
    rfl
  rw [ownJobs, primings, List.filter_map, List.map_map]
  show ((List.range n).filter fun i => i == k).map _ = _
  rw [hown]
  rfl

end Engine

namespace Observed

open Engine

variable {graph : String} {k : Nat} {c : Configuration} {d : GraphDecl} {o o' : Observed MemoryHost}

/-- After a load, the graph is in the same state in company and alone. -/
theorem exists_even_install (h : AtRest o.engine) (hservice : o.engine.world.service = .shared)
    (hapart : c.Apart (o.engine.world.host.host.sceneSignals c.scenes) d) :
    ∃ k, Even d.id k c (o.install d.id c) (o.install d.id { c with graphs := [d] }) := by
  obtain ⟨k, hk, hspares⟩ := hapart.exists_built
  have halone := hapart.buildGraphs_alone
  have hstart : Beside d.id k c (o.withEngine (o.engine.assemble c))
      (o.withEngine (o.engine.assemble { c with graphs := [d] })) :=
    ⟨⟨_, _, h.abreast_assemble hservice halone hk⟩, rfl⟩
  have hlevel : Level (o.engine.world.host.host.sceneSignals c.scenes) (Graph.build d).1.Reads
      (o.engine.assemble c) (o.engine.assemble { c with graphs := [d] }) :=
    ⟨MemoryHost.sceneSignals_congr (devices_teardown o.engine) c.scenes, rfl, fun _ _ => rfl⟩
  -- the graph has bridges for the signals of its share of the table
  have hreads : ∀ entry ∈ subscriberTable (buildGraphs [] c.graphs).1,
      ownSubscribers k entry.2 ≠ [] → (Graph.build d).1.Reads entry.1 := by
    intro entry hentry hown
    obtain ⟨s, hs⟩ := List.exists_mem_of_ne_nil _ hown
    obtain ⟨b, hb, -⟩ := List.mem_map.1 hs
    obtain ⟨hmem, hrunner⟩ := List.mem_filter.1 hb
    rw [eq_receivers_of_mem hentry] at hmem
    have hsignal := mem_receivers.1 hmem
    rw [signalOf?, beq_iff_eq.1 hrunner, hk, Option.bind_some] at hsignal
    exact ⟨b.node, hsignal⟩
  obtain ⟨hconnected, hconnectedLevel⟩ := hstart.connectAll hlevel hspares hreads
  rw [ownTable_subscriberTable hk] at hconnected hconnectedLevel
  have hlt : k < (buildGraphs [] c.graphs).1.length := (List.getElem?_eq_some_iff.1 hk).1
  obtain ⟨hprimed, hprimedLevel⟩ := hconnected.performAll hconnectedLevel hspares
    fun _ hjob => task_ne_of_mem_primings hjob
  rw [ownJobs_primings hlt] at hprimed hprimedLevel
  have hinstall : o.install d.id { c with graphs := [d] } =
      ((subscriberTable [(Graph.build d).1]).foldl (connect d.id)
        (o.withEngine (o.engine.assemble { c with graphs := [d] }))).performAll d.id
          (primings 1) := by
    unfold install
    dsimp only
    rw [halone]
    rfl
  rw [hinstall]
  exact ⟨k, hprimed, hprimedLevel.elapsed_eq⟩

end Observed

end SignalGraph
