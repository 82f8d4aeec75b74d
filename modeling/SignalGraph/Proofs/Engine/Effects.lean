import SignalGraph.Proofs.Engine.Coupling
import SignalGraph.Proofs.Engine.Deliveries
import SignalGraph.Proofs.Host.Logged

/-!
# Effects

A property of the world and the timers of a graph that survives every single thing that a node does
(`World.Keeps`) is kept when the graph receives a value, when it is primed and when its timers fire:
it is a coupling of the world with itself. A property of the world lasts (`World.Lasting`) if it
does not depend on the timers that wait; then the turns of the engine keep it, too
(`World.Lasting.handle`). What a log says about the registered signals and the queue (`World.Logs`)
is built up in this way: whatever is reported while the engine is at work joins the queue if its
signal is registered at that moment (`Engine.effects_handle`, `Engine.logs_install`).
-/

namespace SignalGraph

/-- Paired off with itself, a graph has its own timers. -/
theorem Graph.map_fst_pairings_self (generation : Nat) (g : Graph) :
    (g.pairings generation generation g).map Prod.fst = g.armings generation := by
  have hself {α : Type} (l : List α) : l.zip l = l.map fun a => (a, a) := List.zipWith_self
  have hnode : ∀ n : Node,
      (n.timers.pairings generation generation g.id n.id n.timers).map Prod.fst =
      n.armings generation g.id := by
    intro n
    rw [ArmedTimers.pairings, List.map_map, Node.armings, hself, List.map_map]
    rfl
  rw [pairings, armings, List.map_flatMap, hself, List.flatMap_map]
  exact congrArg (List.flatMap · _) (funext hnode)

namespace World

variable {H : Type} [Host H]

/-! ### What one graph keeps -/

/-- A property of the world and of the timers of the graph with this id, kept by everything that the
nodes of the graph do. -/
structure Keeps (ctx : LoadContext) (graph : String) (P : World H → List Arming → Prop) : Prop where
  perm : ∀ {w l l'}, l.Perm l' → P w l → P w l'
  write : ∀ {w l} signal value ack, P w l → P (w.write signal value ack) l
  resolve : ∀ {w l} scene, P w l → P (w.resolve scene).2 l
  cancel : ∀ {w l} (fire : Fire) (timer : ArmedTimer), P w (⟨fire, timer.ticket⟩ :: l) →
    P (w.cancelTimer timer) l
  book : ∀ {w : World H} {l} node key delay, P w l →
    P (w.book ctx.generation graph node key delay).2
      ((w.book ctx.generation graph node key delay).1 :: l)

namespace Keeps

variable {ctx : LoadContext} {graph : String} {P : World H → List Arming → Prop} {w : World H}
  {r : Runner}

/-- The same world twice, with the same timers. -/
def Twice (P : World H → List Arming → Prop) (w w' : World H) (l : List (Arming × Arming)) : Prop :=
  w' = w ∧ (∀ p ∈ l, p.2 = p.1) ∧ P w (l.map Prod.fst)

/-- What happens twice in the same way is coupled. -/
theorem coupling (hP : Keeps ctx graph P) : Coupling ctx ctx graph (Twice P) where
  settings_eq := rfl
  scenes_eq := rfl
  perm hl h := ⟨h.1, fun p hp => h.2.1 p (hl.symm.subset hp), hP.perm (hl.map _) h.2.2⟩
  reading h := by rw [h.1]
  write signal value ack h := by
    obtain ⟨rfl, hl, hw⟩ := h
    exact ⟨rfl, hl, hP.write signal value ack hw⟩
  resolve scene h := by
    obtain ⟨rfl, hl, hw⟩ := h
    exact ⟨rfl, rfl, hl, hP.resolve scene hw⟩
  cancel fire fire' timer timer' h := by
    obtain ⟨rfl, hl, hw⟩ := h
    -- the two timers stand for the same arming, hence for the same ticket
    have hticket : timer'.ticket = timer.ticket := congrArg Arming.ticket (hl _ List.mem_cons_self)
    refine ⟨?_, fun p hp => hl p (List.mem_cons_of_mem _ hp), hP.cancel fire timer hw⟩
    unfold cancelTimer
    rw [hticket]
  book node key delay h := by
    obtain ⟨rfl, hl, hw⟩ := h
    refine ⟨rfl, ?_, hP.book node key delay hw⟩
    intro p hp
    rcases List.mem_cons.1 hp with rfl | hp
    · rfl
    · exact hl p hp

omit [Host H] in
/-- A runner whose world satisfies `P` is coupled to itself. -/
theorem runners_twice (ctx : LoadContext) (r : Runner) (hw : P w (r.graph.armings ctx.generation)) :
    Coupling.Runners ctx ctx r.graph.id (Twice P) (r, w) (r, w) := by
  refine ⟨⟨rfl, .refl _, rfl, fun _ hp => (Graph.eq_of_mem_pairings_self hp).symm, ?_⟩, rfl, rfl⟩
  rw [Graph.map_fst_pairings_self]
  exact hw

omit [Host H] in
/-- A runner coupled to itself has a world that satisfies `P`. -/
theorem of_runners {o : Runner × World H} (h : Coupling.Runners ctx ctx graph (Twice P) o o) :
    P o.2 (o.1.graph.armings ctx.generation) := by
  rw [← Graph.map_fst_pairings_self]
  exact h.stages.worlds.2.2

theorem inject (hP : Keeps ctx r.graph.id P) (i : Nat) (value : Value)
    (hw : P w (r.graph.armings ctx.generation)) :
    P (r.inject ctx w i value).2 ((r.inject ctx w i value).1.graph.armings ctx.generation) :=
  of_runners (hP.coupling.inject (runners_twice ctx r hw) i value)

theorem prime (hP : Keeps ctx r.graph.id P) (hw : P w (r.graph.armings ctx.generation)) :
    P (r.prime ctx w).2 ((r.prime ctx w).1.graph.armings ctx.generation) :=
  of_runners (hP.coupling.prime (runners_twice ctx r hw))

/-- A fire is refused or takes its arming away. -/
theorem onTimer (ctx : LoadContext) (r : Runner) (w : World H) {fire : Fire}
    (hgeneration : fire.generation = ctx.generation) (hgraph : fire.graph = r.graph.id) :
    r.onTimer ctx w fire = (r, w) ∧ (∀ i n, r.graph.indexOf? fire.node = some i →
        r.graph.nodes[i]? = some n → n.timers.takeFired? fire.key fire.token = none) ∨
      ∃ ticket others, (r.graph.armings ctx.generation).Perm (⟨fire, ticket⟩ :: others) ∧
        ∀ {P : World H → List Arming → Prop}, Keeps ctx r.graph.id P → P w others →
          P (r.onTimer ctx w fire).2 ((r.onTimer ctx w fire).1.graph.armings ctx.generation) := by
  obtain ⟨generation, graph, node, key, token⟩ := fire
  obtain rfl : generation = ctx.generation := hgeneration
  obtain rfl : graph = r.graph.id := hgraph
  have hsame : ∀ p ∈ r.graph.pairings ctx.generation ctx.generation r.graph,
      (p.2.fire = ⟨ctx.generation, r.graph.id, node, key, token⟩ ↔
        p.1.fire = ⟨ctx.generation, r.graph.id, node, key, token⟩) := by
    intro p hp
    rw [Graph.eq_of_mem_pairings_self hp]
  rcases Coupling.onTimer w w (.refl r.graph) rfl rfl hsame with
    ⟨hself, -, hrefused⟩ | ⟨ticket, _, others, hperm, htaken⟩
  · exact .inl ⟨hself, hrefused⟩
  · refine .inr ⟨ticket, others.map Prod.fst, ?_, fun hP hw => ?_⟩
    · have hfirst := hperm.map Prod.fst
      rwa [Graph.map_fst_pairings_self] at hfirst
    · refine of_runners (htaken hP.coupling ⟨rfl, fun p hp => ?_, hw⟩)
      exact (Graph.eq_of_mem_pairings_self (hperm.symm.subset (List.mem_cons_of_mem _ hp))).symm

/-- An armed timer fires: what it sets going starts from the others. -/
theorem onTimer_of_perm (hP : Keeps ctx r.graph.id P) (hs : r.graph.Sound) {a : Arming}
    {rest : List Arming} (hperm : (r.graph.armings ctx.generation).Perm (a :: rest))
    (hw : P w rest) :
    P (r.onTimer ctx w a.fire).2 ((r.onTimer ctx w a.fire).1.graph.armings ctx.generation) := by
  have hself : r.graph.pairings ctx.generation ctx.generation r.graph =
      (r.graph.armings ctx.generation).map fun a => (a, a) := by
    rw [← Graph.map_fst_pairings_self, List.map_map]
    refine (List.map_id _).symm.trans (List.map_congr_left fun p hp => ?_)
    exact Prod.ext rfl (Graph.eq_of_mem_pairings_self hp).symm
  have hpairs := hperm.map fun a => (a, a)
  rw [← hself, List.map_cons] at hpairs
  refine of_runners (hP.coupling.onTimer_of_pair (.refl _) hs rfl rfl hpairs ⟨rfl, ?_, ?_⟩)
  · intro p hp
    obtain ⟨b, -, rfl⟩ := List.mem_map.1 hp
    rfl
  · rw [List.map_map]
    exact (List.map_id rest).symm ▸ hw

end Keeps

/-! ### Lasting properties -/

/-- A property of the world that everything done by nodes keeps. Nodes schedule and cancel timers,
but they do not move the time. -/
structure Lasting (P : World H → Prop) : Prop where
  write : ∀ {w} signal value ack, P w → P (w.write signal value ack)
  resolve : ∀ {w} scene, P w → P (w.resolve scene).2
  withTimeline : ∀ {w t}, t.SameTimes w.timeline → P w → P (w.withTimeline t)
  nextToken : ∀ {w} n, P w → P { w with nextToken := n }

namespace Lasting

variable {P : World H → Prop} {w : World H}

/-- What every command keeps in a world, whatever the armings, every step keeps. -/
theorem keeps (hP : Lasting P) (ctx : LoadContext) (graph : String) :
    Keeps ctx graph fun w _ => P w where
  perm _ h := h
  write := hP.write
  resolve := hP.resolve
  cancel fire timer h := by
    unfold cancelTimer
    split
    · exact hP.withTimeline ⟨rfl, rfl, rfl⟩ h
    · exact h
  book {w _} node key delay h := by
    have hcounted : P { w with nextToken := w.nextToken + 1 } := hP.nextToken _ h
    unfold World.book World.schedule
    dsimp only
    split
    · exact hcounted
    · exact hP.withTimeline ⟨rfl, rfl, rfl⟩ hcounted

theorem inject (hP : Lasting P) (ctx : LoadContext) (r : Runner) (i : Nat) (value : Value)
    (hw : P w) : P (r.inject ctx w i value).2 :=
  (hP.keeps ctx r.graph.id).inject i value hw

theorem prime (hP : Lasting P) (ctx : LoadContext) (r : Runner) (hw : P w) :
    P (r.prime ctx w).2 :=
  (hP.keeps ctx r.graph.id).prime hw

/-- A fire of this load, in its own graph, keeps what every command keeps. -/
theorem onTimer (hP : Lasting P) {ctx : LoadContext} {r : Runner} {fire : Fire}
    (hgeneration : fire.generation = ctx.generation) (hgraph : fire.graph = r.graph.id) (hw : P w) :
    P (r.onTimer ctx w fire).2 := by
  rcases Keeps.onTimer ctx r w hgeneration hgraph with ⟨hself, -⟩ | ⟨_, _, -, htaken⟩
  · rw [hself]
    exact hw
  · exact htaken (hP.keeps ctx r.graph.id) hw

/-! ### Turns -/

variable {e : Engine H}

omit [Host H] in
/-- An update keeps `P` where the function does for the runner updated. -/
theorem updateRunner {i : Nat} {f : Runner → World H → Runner × World H}
    (hf : ∀ r, e.runners[i]? = some r → P (f r e.world).2) (h : P e.world) :
    P (e.updateRunner i f).world := by
  unfold Engine.updateRunner
  split
  · exact h
  · next r hr => exact hf r hr

theorem injectAll (hP : Lasting P) (subscribers : List Subscriber) (value : Value) (h : P e.world) :
    P (e.injectAll subscribers value).world :=
  List.foldlRecOn (motive := fun e : Engine H => P e.world) _ _ h fun e he s _ =>
    updateRunner (fun r _ => hP.inject e.context r s.node value he) he

theorem primeAll (hP : Lasting P) (l : List Nat) (h : P e.world) :
    P (l.foldl Engine.primeRunner e).world :=
  List.foldlRecOn (motive := fun e : Engine H => P e.world) _ _ h fun e he _ _ =>
    updateRunner (fun r _ => hP.prime e.context r he) he

theorem handle (hP : Lasting P) (event : Event) (h : P e.world) : P (e.handle event).world := by
  cases event with
  | change c =>
    unfold Engine.handle
    dsimp only
    split
    · exact hP.injectAll _ _ h
    · exact h
  | timer fire =>
    unfold Engine.handle
    dsimp only
    split
    · exact h
    · next hgeneration =>
      split
      · next i hindex =>
        refine updateRunner (fun r hr => ?_) h
        have hid := eq_of_findIdx?_beq hindex hr
        exact hP.onTimer (not_not.1 hgeneration) hid.symm h
      · exact h

end Lasting

end World

/-! ### What a log says -/

namespace World

variable {H α : Type}

/-- At the moment of a call, the changes reported from inside it are accepted exactly if their
signal is registered. -/
theorem afterCall_eq (w : World H) (reply : Reply H α) :
    w.afterCall reply =
      { w with
        host := reply.host
        queue := w.queue ++
          (reply.reports.filter fun c => w.registered.contains c.signal).map .change } := by
  unfold afterCall
  obtain ⟨host, clock, service, nextToken, registered, queue⟩ := w
  dsimp only
  induction reply.reports generalizing queue with
  | nil => simp
  | cons c rest ih =>
    rw [List.foldl_cons, accept, List.filter_cons]
    dsimp only
    split
    · rw [ih, List.map_cons, List.append_assoc]
      rfl
    · exact ih queue

/-- The log goes on with these entries, and the registered signals and the queue are what they
say. -/
structure Logs (w : World (Logged H)) (entries : List HostEntry) (w' : World (Logged H)) :
    Prop where
  log_eq : w'.host.log = w.host.log ++ entries
  registered_eq : w'.registered = registeredAfter w.registered entries
  queue_eq : w'.queue = w.queue ++ (accepted w.registered entries).map .change

namespace Logs

variable {w w' w'' : World (Logged H)} {entries entries' : List HostEntry}

theorem refl (w : World (Logged H)) : w.Logs [] w :=
  ⟨(List.append_nil _).symm, rfl, (List.append_nil _).symm⟩

theorem trans (h : w.Logs entries w') (h' : w'.Logs entries' w'') :
    w.Logs (entries ++ entries') w'' := by
  constructor
  · rw [h'.log_eq, h.log_eq, List.append_assoc]
  · rw [h'.registered_eq, h.registered_eq, registeredAfter_append]
  · rw [h'.queue_eq, h.queue_eq, h.registered_eq, accepted_append, List.map_append,
      List.append_assoc]

/-- A call is logged; a subscription registers its signal first. -/
theorem call (w : World (Logged H)) (reply : Reply H α) (call : HostCall) (refused : Bool) :
    w.Logs [⟨call, refused, reply.reports⟩]
      ({ w with
          registered := HostEntry.register w.registered ⟨call, refused, reply.reports⟩ }.afterCall
        (w.host.pass reply call refused)) := by
  rw [afterCall_eq]
  refine ⟨rfl, rfl, ?_⟩
  rw [accepted, accepted, List.append_nil]
  rfl

variable [Host H]

theorem subscribe (w : World (Logged H)) (signal : String) : ∃ refused reports,
    w.Logs [⟨.subscribe signal, refused, reports⟩]
      ({ w with registered := signal :: w.registered }.subscribe signal) :=
  ⟨_, _, call w (Host.subscribe w.host.host signal) (.subscribe signal) _⟩

theorem read (w : World (Logged H)) (signal : String) : ∃ reports,
    w.Logs [⟨.read signal (w.read signal).1, false, reports⟩] (w.read signal).2 :=
  ⟨_, call w (Host.read w.host.host signal) (.read signal (w.read signal).1) false⟩

end Logs

/-- What nodes do to the world of a host with a log. -/
def Effects (w w' : World (Logged H)) : Prop :=
  ∃ entries, (∀ entry ∈ entries, entry.IsEffect) ∧ w.Logs entries w'

namespace Effects

variable {w w' w'' : World (Logged H)}

theorem refl (w : World (Logged H)) : w.Effects w :=
  ⟨[], (fun _ hentry => nomatch hentry), Logs.refl w⟩

/-- One more call is an effect if its entry is one. -/
theorem call {reply : Reply H α} {call : HostCall} {refused : Bool} (h : w.Effects w')
    (hcall : HostEntry.IsEffect ⟨call, refused, reply.reports⟩) :
    w.Effects (w'.afterCall (w'.host.pass reply call refused)) := by
  obtain ⟨entries, heffects, hlogs⟩ := h
  have hlast := Logs.call w' reply call refused
  rw [HostEntry.register, hcall.none.1] at hlast
  refine ⟨entries ++ [⟨call, refused, reply.reports⟩], fun entry hentry => ?_, hlogs.trans hlast⟩
  rcases List.mem_append.1 hentry with hentry | hentry
  · exact heffects entry hentry
  · rw [List.mem_singleton.1 hentry]
    exact hcall

end Effects

/-- Nodes do no more than write and ask for scenes. -/
theorem lasting_effects [Host H] (w : World (Logged H)) : Lasting w.Effects where
  write _ _ _ h := h.call trivial
  resolve _ h := h.call trivial
  withTimeline {w' _} _ h := by
    obtain ⟨entries, heffects, hlog, hregistered, hqueue⟩ := h
    refine ⟨entries, heffects, ?_⟩
    unfold World.withTimeline
    cases w'.service <;> exact ⟨hlog, hregistered, hqueue⟩
  nextToken n h := by
    obtain ⟨entries, heffects, hlog, hregistered, hqueue⟩ := h
    exact ⟨entries, heffects, hlog, hregistered, hqueue⟩

end World

/-! ### Turns and loads in the log -/

namespace Engine

variable {H : Type} [Host H] (e : Engine (Logged H))

/-- Handling an event only has effects: it subscribes to nothing and unsubscribes from nothing. -/
theorem effects_handle (event : Event) : e.world.Effects (e.handle event).world :=
  e.world.lasting_effects.handle event (.refl _)

/-- What the log of a load says: these signals are subscribed to, these values are read, and no
subscription ends. -/
structure Opening (entries : List HostEntry) (signals : List String) (values : List Change) :
    Prop where
  subscribed_eq : entries.filterMap HostEntry.subscribed? = signals
  values_eq : entries.filterMap HostEntry.value? = values
  unsubscribed_eq : entries.filterMap HostEntry.unsubscribed? = []

omit [Host H] in
theorem Opening.append {entries entries' : List HostEntry} {signals signals' : List String}
    {values values' : List Change} (h : Opening entries signals values)
    (h' : Opening entries' signals' values') :
    Opening (entries ++ entries') (signals ++ signals') (values ++ values') := by
  constructor
  · rw [List.filterMap_append, h.subscribed_eq, h'.subscribed_eq]
  · rw [List.filterMap_append, h.values_eq, h'.values_eq]
  · rw [List.filterMap_append, h.unsubscribed_eq, h'.unsubscribed_eq]
    rfl

omit [Host H] in
/-- Effects open nothing. -/
theorem Opening.effects {entries : List HostEntry} (h : ∀ entry ∈ entries, entry.IsEffect) :
    Opening entries [] [] := by
  obtain ⟨hsubscribed, hunsubscribed, hvalues⟩ := filterMap_effects h
  exact ⟨hsubscribed, hvalues, hunsubscribed⟩

/-- A signal is subscribed to, its value is read, and nodes do the rest. -/
theorem logs_connect (entry : String × List Subscriber) : ∃ entries,
    e.world.Logs entries (e.connect entry).world ∧ Opening entries [entry.1]
      ((e.initialValue? entry.1).map fun value => ⟨entry.1, value⟩).toList := by
  obtain ⟨signal, subscribers⟩ := entry
  obtain ⟨refused, reports, hsubscribe⟩ := World.Logs.subscribe e.world signal
  obtain ⟨reports', hread⟩ := World.Logs.read
    ({ e.world with registered := signal :: e.world.registered }.subscribe signal) signal
  have hsubscribed : e.world.Logs ([⟨.subscribe signal, refused, reports⟩] ++
      [⟨.read signal (e.initialValue? signal), false, reports'⟩]) (e.subscribed signal).world :=
    hsubscribe.trans hread
  have hopening : Opening ([⟨.subscribe signal, refused, reports⟩] ++
      [⟨.read signal (e.initialValue? signal), false, reports'⟩]) [signal]
      ((e.initialValue? signal).map fun value => ⟨signal, value⟩).toList := by
    refine ⟨rfl, ?_, rfl⟩
    cases e.initialValue? signal <;> rfl
  rw [connect_eq]
  dsimp only
  -- what has been logged so far mentions the value only as something that was read
  generalize e.initialValue? signal = value? at hsubscribed hopening ⊢
  cases value? with
  | none => exact ⟨_, hsubscribed, hopening⟩
  | some value =>
    obtain ⟨entries, heffects, hlogs⟩ :=
      (e.subscribed signal).world.lasting_effects.injectAll subscribers value (.refl _)
    refine ⟨_, hsubscribed.trans hlogs, ?_⟩
    have hall := hopening.append (.effects heffects)
    rwa [List.append_nil, List.append_nil] at hall

/-- Connecting a table opens its keys and tells the values that the host has for them. -/
theorem logs_connectAll (table : Dictionary (List Subscriber)) : ∃ entries,
    e.world.Logs entries (table.foldl connect e).world ∧
      Opening entries table.keys (e.connected table) := by
  induction table generalizing e with
  | nil => exact ⟨[], .refl _, rfl, rfl, rfl⟩
  | cons entry rest ih =>
    obtain ⟨first, hfirst, hopening⟩ := e.logs_connect entry
    obtain ⟨others, hothers, hopenings⟩ := ih (e.connect entry)
    exact ⟨first ++ others, hfirst.trans hothers, hopening.append hopenings⟩

/-- A load subscribes to each signal of its table once and delivers the values that it reads. -/
theorem logs_install (c : Configuration) : ∃ entries,
    e.teardown.world.Logs entries (e.install c).2.world ∧
      Opening entries (subscriberTable (buildGraphs [] c.graphs).1).keys (e.initialChanges c) := by
  obtain ⟨entries, hconnected, hopening⟩ :=
    (e.assemble c).logs_connectAll (subscriberTable (buildGraphs [] c.graphs).1)
  rw [install_eq]
  obtain ⟨entries', heffects, hprimed⟩ := (World.lasting_effects _).primeAll
    (e := (subscriberTable (buildGraphs [] c.graphs).1).foldl connect (e.assemble c))
    (List.range (buildGraphs [] c.graphs).1.length) (.refl _)
  refine ⟨entries ++ entries', hconnected.trans hprimed, ?_⟩
  have hall := hopening.append (.effects heffects)
  rwa [List.append_nil, List.append_nil] at hall

omit e in
/-- Unsubscribing logs one entry for every signal. -/
theorem logs_unsubscribe_all (signals : List String) (w : World (Logged H)) : ∃ entries,
    w.Logs entries (signals.foldl World.unsubscribe w) ∧
      entries.map HostEntry.call = signals.map .unsubscribe := by
  induction signals generalizing w with
  | nil => exact ⟨[], .refl w, rfl⟩
  | cons signal rest ih =>
    let reply := Host.unsubscribe w.host.host signal
    have hfirst : w.Logs [⟨.unsubscribe signal, !reply.answer.isOk, reply.reports⟩]
        (w.unsubscribe signal) := World.Logs.call w reply (.unsubscribe signal) _
    obtain ⟨entries, hlogs, hcalls⟩ := ih (w.unsubscribe signal)
    exact ⟨_, hfirst.trans hlogs, congrArg (HostCall.unsubscribe signal :: ·) hcalls⟩

omit [Host H] e in
/-- Cancelling timers touches nothing but the timeline. -/
theorem cancelTimers_induct {H : Type} {P : World H → Prop}
    (hP : ∀ (w : World H) t, P w → P (w.withTimeline t)) {w : World H} (r : Runner) (h : P w) :
    P (cancelTimers w r) := by
  unfold cancelTimers
  rw [← Array.foldl_toList]
  refine List.foldlRecOn (motive := P) _ _ h fun w hw n _ => ?_
  refine List.foldlRecOn (motive := P) _ _ hw fun w hw timer _ => ?_
  unfold World.cancelTimer
  split
  · exact hP w _ hw
  · exact hw

/-- The log of a teardown: every subscription ends, and what the host reports meanwhile is accepted
as before. -/
structure Farewells (e : Engine (Logged H)) (entries : List HostEntry) : Prop where
  calls_eq : entries.map HostEntry.call = e.subscribers.keys.map .unsubscribe
  log_eq : e.teardown.world.host.log = e.world.host.log ++ entries
  queue_eq : e.teardown.world.queue =
    e.world.queue ++ (accepted e.world.registered entries).map .change

/-- An engine always has farewells to log when it stops. -/
theorem exists_farewells : ∃ entries, e.Farewells entries := by
  have hcancelled : e.world.Logs [] (e.runners.foldl cancelTimers e.world) := by
    have hlogs : ∀ (w : World (Logged H)) t,
        e.world.Logs [] w → e.world.Logs [] (w.withTimeline t) := by
      intro w t hw
      obtain ⟨hlog, hregistered, hqueue⟩ := hw
      unfold World.withTimeline
      cases w.service <;> exact ⟨hlog, hregistered, hqueue⟩
    rw [← Array.foldl_toList]
    exact List.foldlRecOn (motive := e.world.Logs []) _ _ (.refl e.world)
      fun _ hw r _ => cancelTimers_induct hlogs r hw
  obtain ⟨entries, hlogs, hcalls⟩ :=
    logs_unsubscribe_all e.subscribers.keys (e.runners.foldl cancelTimers e.world)
  have hall := hcancelled.trans hlogs
  exact ⟨entries, hcalls, hall.log_eq, hall.queue_eq⟩

/-- If the host reports nothing while subscriptions end, the queue stays as it is. -/
theorem queue_teardown {H : Type} [Host H] (hquiet : World.QuietUnsubscribe H) (e : Engine H) :
    e.teardown.world.queue = e.world.queue := by
  have hqueue : ∀ (w : World H) t, w.queue = e.world.queue →
      (w.withTimeline t).queue = e.world.queue :=
    fun w t hw => (World.queue_withTimeline w t).trans hw
  have hcancelled : (e.runners.foldl cancelTimers e.world).queue = e.world.queue := by
    rw [← Array.foldl_toList]
    exact List.foldlRecOn (motive := fun w : World H => w.queue = e.world.queue) _ _ rfl
      fun _ hw r _ =>
        cancelTimers_induct (P := fun w : World H => w.queue = e.world.queue) hqueue r hw
  have hlast := World.unsubscribe_all_eq hquiet (e.runners.foldl cancelTimers e.world)
    e.subscribers.keys
  exact (congrArg World.queue hlast).trans hcancelled

end Engine

end SignalGraph
