import SignalGraph.Proofs.Engine.Renumbering

/-!
# Another host

A map between hosts follows the calls if the image of a host reports the same changes, gives the
same values and signals and moves on to the image of the next host (`HostHom`). Whether
subscriptions and writes succeed may differ. The engine on the image does what the engine on the
host does (`Engine.serve_rehost`): for a runner by way of a coupling (`World.coupling_rehost`), for
the engine operation by operation.
-/

namespace SignalGraph

variable {H K : Type}

/-! ### Hosts -/

/-- The reply of the image of a host, as far as it matters to the engine. -/
structure Reply.Follows {α β : Type} (f : H → K) (reply : Reply H α) (reply' : Reply K β) :
    Prop where
  host_eq : reply'.host = f reply.host
  reports_eq : reply'.reports = reply.reports

/-- A map that follows the calls, whichever subscriptions and writes are refused. -/
structure HostHom [Host H] [Host K] (f : H → K) : Prop where
  subscribe : ∀ h signal, (Host.subscribe h signal).Follows f (Host.subscribe (f h) signal)
  unsubscribe : ∀ h signal, (Host.unsubscribe h signal).Follows f (Host.unsubscribe (f h) signal)
  write : ∀ h signal value ack,
    (Host.write h signal value ack).Follows f (Host.write (f h) signal value ack)
  read : ∀ h signal, (Host.read h signal).Follows f (Host.read (f h) signal)
  value_eq : ∀ h signal, (Host.read (f h) signal).answer = (Host.read h signal).answer
  resolve : ∀ h scene, (Host.resolve h scene).Follows f (Host.resolve (f h) scene)
  signal_eq : ∀ h scene, (Host.resolve (f h) scene).answer = (Host.resolve h scene).answer

variable {f : H → K}

/-! ### The world -/

namespace World

/-- The same world on another host. -/
def rehost (f : H → K) (w : World H) : World K :=
  { host := f w.host, clock := w.clock, service := w.service, nextToken := w.nextToken
    registered := w.registered, queue := w.queue }

theorem accept_rehost (w : World H) (c : Change) :
    (w.rehost f).accept c = (w.accept c).rehost f := by
  unfold accept
  rw [show (w.rehost f).registered = w.registered from rfl]
  split <;> rfl

/-- A call on the image of the host leaves the image of the world. -/
theorem afterCall_rehost {α β : Type} {reply : Reply H α} {reply' : Reply K β}
    (h : reply.Follows f reply') (w : World H) :
    (w.rehost f).afterCall reply' = (w.afterCall reply).rehost f := by
  have hhost :
      { w.rehost f with host := reply'.host } = rehost f { w with host := reply.host } := by
    rw [h.host_eq]
    rfl
  unfold afterCall
  rw [hhost, h.reports_eq]
  exact List.foldl_hom (rehost f) fun w c => w.accept_rehost c

theorem withTimeline_rehost (w : World H) (t : Timeline Fire) :
    (w.rehost f).withTimeline t = (w.withTimeline t).rehost f := by
  unfold withTimeline rehost
  cases w.service <;> rfl

/-- Timers wait on the clock, not with the host. -/
theorem schedule_rehost (w : World H) (delay : Nat) (fire : Fire) :
    (w.rehost f).schedule delay fire = (w.schedule delay fire).map id (rehost f) := by
  unfold schedule
  rw [show (w.rehost f).service = w.service from rfl]
  cases w.service with
  | inert => rfl
  | shared | separate => exact congrArg (Prod.mk _) (withTimeline_rehost w _)

theorem cancelTimer_rehost (w : World H) (timer : ArmedTimer) :
    (w.rehost f).cancelTimer timer = (w.cancelTimer timer).rehost f := by
  unfold cancelTimer
  cases timer.ticket with
  | none => rfl
  | some ticket => exact withTimeline_rehost w _

/-- An arming gets the same token and the same ticket. -/
theorem book_rehost (w : World H) (generation : Nat) (graph node : String) (key : TimerKey)
    (delay : Nat) :
    (w.rehost f).book generation graph node key delay =
      (w.book generation graph node key delay).map id (rehost f) := by
  have hscheduled := schedule_rehost (f := f) { w with nextToken := w.nextToken + 1 } delay
    ⟨generation, graph, node, key, w.nextToken⟩
  exact congrArg (fun scheduled : Option Ticket × World K =>
    ((⟨⟨generation, graph, node, key, w.nextToken⟩, scheduled.1⟩ : Arming), scheduled.2)) hscheduled

/-- The second world is the first one on another host, and all timers are the same. -/
def Rehosted (f : H → K) (w : World H) (w' : World K) (l : List (Arming × Arming)) : Prop :=
  w' = w.rehost f ∧ ∀ p ∈ l, p.2 = p.1

variable [Host H] [Host K]

theorem subscribe_rehost (hf : HostHom f) (w : World H) (signal : String) :
    (w.rehost f).subscribe signal = (w.subscribe signal).rehost f :=
  afterCall_rehost (hf.subscribe w.host signal) w

theorem unsubscribe_rehost (hf : HostHom f) (w : World H) (signal : String) :
    (w.rehost f).unsubscribe signal = (w.unsubscribe signal).rehost f :=
  afterCall_rehost (hf.unsubscribe w.host signal) w

theorem write_rehost (hf : HostHom f) (w : World H) (signal : String) (value : Value) (ack : Bool) :
    (w.rehost f).write signal value ack = (w.write signal value ack).rehost f :=
  afterCall_rehost (hf.write w.host signal value ack) w

theorem read_rehost (hf : HostHom f) (w : World H) (signal : String) :
    (w.rehost f).read signal = (w.read signal).map id (rehost f) :=
  Prod.ext (hf.value_eq w.host signal) (afterCall_rehost (hf.read w.host signal) w)

theorem resolve_rehost (hf : HostHom f) (w : World H) (scene : String) :
    (w.rehost f).resolve scene = (w.resolve scene).map id (rehost f) :=
  Prod.ext (hf.signal_eq w.host scene) (afterCall_rehost (hf.resolve w.host scene) w)

/-- A world and its image are coupled. -/
theorem coupling_rehost (hf : HostHom f) (ctx : LoadContext) (graph : String) :
    Coupling ctx ctx graph (Rehosted f) where
  settings_eq := rfl
  scenes_eq := rfl
  perm hl h := ⟨h.1, fun p hp => h.2 p (hl.symm.subset hp)⟩
  reading h := by
    obtain ⟨rfl, -⟩ := h
    rfl
  write signal value ack h := by
    obtain ⟨rfl, hl⟩ := h
    exact ⟨write_rehost hf _ signal value ack, hl⟩
  resolve {w w' l} scene h := by
    obtain ⟨rfl, hl⟩ := h
    rw [resolve_rehost hf]
    exact ⟨rfl, rfl, hl⟩
  cancel {w w' l} fire fire' timer timer' h := by
    obtain ⟨rfl, hl⟩ := h
    -- the pair stands in the list, so both timers have the same ticket
    have hticket : timer'.ticket = timer.ticket := congrArg Arming.ticket (hl _ List.mem_cons_self)
    refine ⟨?_, fun p hp => hl p (List.mem_cons_of_mem _ hp)⟩
    rw [← cancelTimer_rehost]
    unfold cancelTimer
    rw [hticket]
  book {w w' l} node key delay h := by
    obtain ⟨rfl, hl⟩ := h
    have hbooked := w.book_rehost (f := f) ctx.generation graph node key delay
    refine ⟨congrArg Prod.snd hbooked, fun p hp => ?_⟩
    rcases List.mem_cons.1 hp with rfl | hp
    · exact congrArg Prod.fst hbooked
    · exact hl p hp

end World

/-! ### Runners -/

/-- Numbers that are moved by nothing. -/
theorem Graph.renumber_zero (g : Graph) : g.renumber ⟨0, 0, 0⟩ = g := by
  have htimer : ArmedTimer.renumber ⟨0, 0, 0⟩ = fun t => t := by
    funext ⟨key, token, ticket⟩
    cases ticket <;> rfl
  have hnode : Node.renumber ⟨0, 0, 0⟩ = fun n => n := by
    funext n
    rw [Node.renumber, htimer, List.map_id']
  rw [renumber, hnode, Array.map_id']

/-- Twins with the same timers are the same. -/
theorem Graph.Twin.eq_of_pairings {g g' : Graph} {ctx : LoadContext} (h : g.Twin g')
    (hpairs : ∀ p ∈ g.pairings ctx.generation ctx.generation g', p.2 = p.1) : g' = g := by
  have hzero : ∀ a : Arming, a.renumber ⟨0, 0, 0⟩ = a := by
    rintro ⟨fire, ticket⟩
    cases ticket <;> rfl
  have hrenumbered : ∀ p ∈ g.pairings (ctx.renumber ⟨0, 0, 0⟩).generation ctx.generation g',
      p.1 = p.2.renumber ⟨0, 0, 0⟩ := by
    intro p hp
    rw [hzero, hpairs p hp]
  rw [h.eq_renumber hrenumbered, renumber_zero]

namespace Runner

open Coupling

variable [Host H] [Host K] {ctx : LoadContext}

omit [Host H] [Host K] in
theorem runners_rehost (ctx : LoadContext) (r : Runner) (w : World H) :
    Runners ctx ctx r.graph.id (World.Rehosted f) (r, w) (r, w.rehost f) :=
  ⟨⟨rfl, .refl r.graph, rfl, fun _ hp => (Graph.eq_of_mem_pairings_self hp).symm⟩, rfl, rfl⟩

omit [Host H] [Host K] in
/-- What is coupled on two hosts differs in the host alone. -/
theorem eq_rehost {graph : String} {a : Runner × World H} {a' : Runner × World K}
    (h : Runners ctx ctx graph (World.Rehosted f) a a') : a' = a.map id (World.rehost f) := by
  obtain ⟨⟨graph, lastSteps, truncatedPasses⟩, w⟩ := a'
  obtain ⟨⟨-, htwin, hworld, hpairs⟩, hsteps, htruncated⟩ := h
  obtain rfl : graph = a.1.graph := htwin.eq_of_pairings hpairs
  obtain rfl : lastSteps = a.1.lastSteps := hsteps
  obtain rfl : truncatedPasses = a.1.truncatedPasses := htruncated
  obtain rfl : w = a.2.rehost f := hworld
  rfl

variable (hf : HostHom f) (r : Runner) (w : World H)

include hf

/-- What a graph does with a value is the same on the image. -/
theorem inject_rehost (i : Nat) (value : Value) :
    r.inject ctx (w.rehost f) i value = (r.inject ctx w i value).map id (World.rehost f) :=
  eq_rehost ((World.coupling_rehost hf ctx _).inject (runners_rehost ctx r w) i value)

theorem prime_rehost : r.prime ctx (w.rehost f) = (r.prime ctx w).map id (World.rehost f) :=
  eq_rehost ((World.coupling_rehost hf ctx _).prime (runners_rehost ctx r w))

theorem onTimer_rehost {fire : Fire} (hgeneration : fire.generation = ctx.generation)
    (hgraph : fire.graph = r.graph.id) :
    r.onTimer ctx (w.rehost f) fire = (r.onTimer ctx w fire).map id (World.rehost f) := by
  obtain ⟨generation, graph, node, key, token⟩ := fire
  obtain rfl : generation = ctx.generation := hgeneration
  obtain rfl : graph = r.graph.id := hgraph
  have hself : ∀ p ∈ r.graph.pairings ctx.generation ctx.generation r.graph, p.1 = p.2 :=
    fun _ => Graph.eq_of_mem_pairings_self
  have hsame : ∀ p ∈ r.graph.pairings ctx.generation ctx.generation r.graph,
      (p.2.fire = ⟨ctx.generation, r.graph.id, node, key, token⟩ ↔
        p.1.fire = ⟨ctx.generation, r.graph.id, node, key, token⟩) := by
    intro p hp
    rw [hself p hp]
  rcases Coupling.onTimer w (w.rehost f) (.refl r.graph) rfl rfl hsame with
    ⟨hrefused, hrefused', -⟩ | ⟨_, _, others, hperm, htaken⟩
  · rw [hrefused, hrefused']
    rfl
  · refine eq_rehost (htaken (World.coupling_rehost hf ctx _) ⟨rfl, fun p hp => ?_⟩)
    exact (hself p (hperm.symm.subset (List.mem_cons_of_mem _ hp))).symm

end Runner

/-! ### The engine -/

namespace Engine

/-- The same engine on another host. -/
def rehost (f : H → K) (e : Engine H) : Engine K :=
  { world := e.world.rehost f, settings := e.settings, generation := e.generation
    scenes := e.scenes, runners := e.runners, subscribers := e.subscribers }

/-- A running graph is changed alike on both hosts. -/
theorem updateRunner_rehost {e : Engine H} {i : Nat} {change : Runner → World H → Runner × World H}
    {change' : Runner → World K → Runner × World K}
    (h : ∀ r, e.runners[i]? = some r →
      change' r (e.world.rehost f) = (change r e.world).map id (World.rehost f)) :
    (e.rehost f).updateRunner i change' = (e.updateRunner i change).rehost f := by
  unfold updateRunner
  rw [show (e.rehost f).runners[i]? = e.runners[i]? from rfl]
  cases hr : e.runners[i]? with
  | none => rfl
  | some r =>
    simp only [show (e.rehost f).world = e.world.rehost f from rfl, h r hr]
    rfl

variable [Host H] [Host K] (hf : HostHom f) (e : Engine H)

include hf

theorem injectAll_rehost (subscribers : List Subscriber) (value : Value) :
    (e.rehost f).injectAll subscribers value = (e.injectAll subscribers value).rehost f :=
  List.foldl_hom (rehost f) fun e s =>
    updateRunner_rehost fun r _ => r.inject_rehost hf e.world s.node value

theorem handle_rehost (event : Event) : (e.rehost f).handle event = (e.handle event).rehost f := by
  cases event with
  | change c =>
    unfold handle
    dsimp only
    rw [show (e.rehost f).subscribers = e.subscribers from rfl]
    split
    · exact injectAll_rehost hf e _ _
    · rfl
  | timer fire =>
    unfold handle
    dsimp only
    rw [show (e.rehost f).generation = e.generation from rfl,
      show (e.rehost f).runners = e.runners from rfl]
    split
    · rfl
    · next hcurrent =>
      split
      · next i hfound =>
        -- the fire is current and meant for this graph
        refine updateRunner_rehost fun r hr => r.onTimer_rehost hf e.world (not_not.1 hcurrent) ?_
        exact (eq_of_findIdx?_beq hfound hr).symm
      · rfl

theorem turn?_rehost : (e.rehost f).turn? = e.turn?.map (rehost f) := by
  unfold turn?
  rw [show (e.rehost f).world.queue = e.world.queue from rfl]
  cases e.world.queue with
  | nil => rfl
  | cons event rest => exact congrArg some (handle_rehost hf (e.withQueue rest) event)

theorem settle_rehost (limit : Nat) (e : Engine H) :
    (e.rehost f).settle limit = (e.settle limit).map (rehost f) := by
  induction limit generalizing e with
  | zero =>
    unfold settle
    rw [turn?_rehost hf]
    cases e.turn? <;> rfl
  | succ limit ih =>
    unfold settle
    rw [turn?_rehost hf]
    cases e.turn? with
    | none => rfl
    | some e' => exact ih e'

theorem submit_rehost (limit : Nat) (event : Event) :
    (e.rehost f).submit limit event = (e.submit limit event).map (rehost f) :=
  settle_rehost hf limit (e.withQueue (e.world.queue ++ [event]))

/-! ### Loads -/

/-- A teardown cancels the same timers and ends the same subscriptions. -/
theorem teardown_rehost : (e.rehost f).teardown = e.teardown.rehost f := by
  have hcancelled : e.runners.foldl cancelTimers (e.world.rehost f) =
      (e.runners.foldl cancelTimers e.world).rehost f := by
    have hrunner (w : World H) (r : Runner) :
        cancelTimers (w.rehost f) r = (cancelTimers w r).rehost f := by
      unfold cancelTimers
      rw [← Array.foldl_toList, ← Array.foldl_toList]
      exact List.foldl_hom (World.rehost f) fun w n =>
        List.foldl_hom (World.rehost f) fun w t => w.cancelTimer_rehost t
    rw [← Array.foldl_toList, ← Array.foldl_toList]
    exact List.foldl_hom (World.rehost f) hrunner
  have hunsubscribed (w : World H) : e.subscribers.keys.foldl World.unsubscribe (w.rehost f) =
      (e.subscribers.keys.foldl World.unsubscribe w).rehost f :=
    List.foldl_hom (World.rehost f) fun w signal => w.unsubscribe_rehost hf signal
  unfold teardown
  dsimp only
  rw [show (e.rehost f).runners = e.runners from rfl,
    show (e.rehost f).world = e.world.rehost f from rfl,
    hcancelled, show (e.rehost f).subscribers = e.subscribers from rfl, hunsubscribed]
  rfl

theorem assemble_rehost (c : Configuration) :
    (e.rehost f).assemble c = (e.assemble c).rehost f := by
  unfold assemble
  rw [teardown_rehost hf]
  rfl

/-- Connecting a signal subscribes to it, reads it and injects the same value. -/
theorem connect_rehost (entry : String × List Subscriber) :
    (e.rehost f).connect entry = (e.connect entry).rehost f := by
  -- both calls follow the map, so the value read is the same
  have hworld : ({ (e.rehost f).world with
        registered := entry.1 :: (e.rehost f).world.registered }.subscribe entry.1).read entry.1 =
      (({ e.world with registered := entry.1 :: e.world.registered }.subscribe entry.1).read
        entry.1).map id (World.rehost f) := by
    rw [← World.read_rehost hf, ← World.subscribe_rehost hf]
    rfl
  have hvalue : (e.rehost f).initialValue? entry.1 = e.initialValue? entry.1 := by
    unfold initialValue?
    rw [hworld]
    rfl
  have hafter : (e.rehost f).subscribed entry.1 = (e.subscribed entry.1).rehost f := by
    unfold subscribed
    rw [congrArg Prod.snd hworld]
    rfl
  rw [connect_eq, connect_eq, hvalue, hafter]
  cases e.initialValue? entry.1 with
  | none => rfl
  | some value => exact injectAll_rehost hf _ _ _

/-- A load does the same on the image, with the same report. -/
theorem install_rehost (c : Configuration) :
    (e.rehost f).install c = (e.install c).map id (rehost f) := by
  have hafter : ((e.rehost f).install c).2 = (e.install c).2.rehost f := by
    rw [install_eq, install_eq, assemble_rehost hf,
      List.foldl_hom (rehost f) fun e entry => connect_rehost hf e entry]
    exact List.foldl_hom (rehost f) fun e i =>
      updateRunner_rehost fun r _ => r.prime_rehost hf e.world
  exact congrArg (Prod.mk (e.install c).1) hafter

/-! ### Requests -/

theorem load_rehost (limit : Nat) (c : Configuration) :
    (e.rehost f).load limit c = (e.load limit c).map (Prod.map id (rehost f)) := by
  simp only [load, install_rehost hf, Prod.map, settle_rehost hf, Option.map_map]
  rfl

/-- Letting time pass does the same on the image. -/
theorem hom_rehost (limit : Nat) :
    Owner.Hom (owner (H := H) limit) (owner (H := K) limit) (rehost f) id id where
  timeline _ := rfl
  withTimeline e t := by
    show { e.rehost f with world := (e.world.rehost f).withTimeline t } = _
    rw [World.withTimeline_rehost]
    rfl
  fire e fire := submit_rehost hf e limit (.timer fire)
  popDue? t target := by
    rw [Prod.map_id, Option.map_id]
    rfl
  reach _ _ := rfl

theorem advance_rehost (limit millis : Nat) :
    (e.rehost f).advance limit millis = (e.advance limit millis).map (Prod.map id (rehost f)) :=
  (hom_rehost hf limit).advanceTo (e.world.timeline.elapsed + millis) limit 0 e

omit hf [Host H] [Host K] in
/-- The same request on another host. -/
def Request.rehost (f : H → K) : Request H → Request K
  | .load c => .load c
  | .stop => .stop
  | .change c => .change c
  | .advance millis => .advance millis
  | .shiftLocal millis => .shiftLocal millis
  | .host h => .host (f h)

/-- A caller sees the same on both hosts. -/
theorem serve_rehost (limit : Nat) (request : Request H) :
    (e.rehost f).serve limit (request.rehost f) = (e.serve limit request).map (rehost f) := by
  cases request with
  | load c =>
    show ((e.rehost f).load limit c).map Prod.snd = ((e.load limit c).map Prod.snd).map (rehost f)
    rw [load_rehost hf, Option.map_map, Option.map_map]
    rfl
  | stop =>
    show some (e.rehost f).stop = some (e.stop.rehost f)
    unfold stop
    rw [teardown_rehost hf]
    rfl
  | change c =>
    show (e.rehost f).change limit c = (e.change limit c).map (rehost f)
    unfold change
    -- which signals are registered does not depend on the host
    rw [show (e.rehost f).world.registered = e.world.registered from rfl]
    split
    · exact submit_rehost hf e limit (.change c)
    · rfl
  | advance millis =>
    show ((e.rehost f).advance limit millis).map Prod.snd =
      ((e.advance limit millis).map Prod.snd).map (rehost f)
    rw [advance_rehost hf, Option.map_map, Option.map_map]
    rfl
  | shiftLocal millis => rfl
  | host host => rfl

theorem serveAll_rehost (limit : Nat) (requests : List (Request H)) :
    (e.rehost f).serveAll limit (requests.map (Request.rehost f)) =
      (e.serveAll limit requests).map (rehost f) := by
  induction requests generalizing e with
  | nil => rfl
  | cons request rest ih =>
    rw [List.map_cons, serveAll, serveAll, serve_rehost hf]
    cases e.serve limit request with
    | none => rfl
    | some e' => exact ih e'

end Engine

end SignalGraph
