import SignalGraph.Proofs.Engine.Pass
import SignalGraph.Proofs.Graph.Built
import SignalGraph.Proofs.Timer.Timeline

/-!
# Runs of the engine

A caller serves requests (`Engine.serve`); between two of them the engine is at rest
(`Engine.AtRest`). A request is made of smaller actions, of which the handling of one event is one
(`Engine.act`), and `Engine.Reachable` are the states between two actions. Every state at rest is
among them (`AtRest.reachable`).

`Engine.Closed` collects what a property has to survive in order to hold through a change that is
handled and through a load; `Engine.Runs` says that the running graphs are those of a configuration,
with nodes that have changed by `Node.Step`.
-/

namespace SignalGraph

/-! ### Host calls -/

namespace World

variable {H : Type}

/-- Nothing but the host and the registered signals has changed, and at most changes have joined the
queue. -/
structure Quiet (w w' : World H) : Prop where
  clock_eq : w'.clock = w.clock
  service_eq : w'.service = w.service
  nextToken_eq : w'.nextToken = w.nextToken
  exists_queue : ∃ changes : List Change, w'.queue = w.queue ++ changes.map .change

namespace Quiet

variable {w w' w'' : World H}

theorem refl (w : World H) : Quiet w w :=
  ⟨rfl, rfl, rfl, [], (List.append_nil _).symm⟩

theorem trans (h : Quiet w w') (h' : Quiet w' w'') : Quiet w w'' := by
  obtain ⟨changes, hqueue⟩ := h.exists_queue
  obtain ⟨changes', hqueue'⟩ := h'.exists_queue
  refine ⟨h'.clock_eq.trans h.clock_eq, h'.service_eq.trans h.service_eq,
    h'.nextToken_eq.trans h.nextToken_eq, changes ++ changes', ?_⟩
  rw [hqueue', hqueue, List.map_append, List.append_assoc]

/-- A report leaves all but the queue as it was, and appends to the queue what has been accepted. -/
theorem accept (w : World H) (c : Change) : Quiet w (w.accept c) := by
  unfold World.accept
  split
  · exact ⟨rfl, rfl, rfl, [c], rfl⟩
  · exact refl w

/-- A call moves the host on, and what it reports only joins the queue. -/
theorem afterCall {α : Type} (w : World H) (reply : Reply H α) : Quiet w (w.afterCall reply) := by
  have hhost : Quiet w { w with host := reply.host } :=
    ⟨rfl, rfl, rfl, [], (List.append_nil _).symm⟩
  unfold World.afterCall
  generalize { w with host := reply.host } = v at hhost ⊢
  induction reply.reports generalizing v with
  | nil => exact hhost
  | cons c rest ih => exact ih _ (hhost.trans (accept v c))

theorem timeline_eq (h : Quiet w w') : w'.timeline = w.timeline := by
  rw [timeline, timeline, h.service_eq, h.clock_eq]

/-- Which signals are registered makes no difference to clocks, timers and queue. -/
theorem register (w : World H) (registered : List String) :
    Quiet w { w with registered := registered } :=
  ⟨rfl, rfl, rfl, [], (List.append_nil _).symm⟩

variable [Host H]

theorem sceneTarget (w : World H) (scenes : Dictionary String) (scene fallback : Option String) :
    Quiet w (w.sceneTarget scenes scene fallback).2 := by
  unfold World.sceneTarget
  split
  · exact refl w
  · exact afterCall w _

theorem of_sceneTarget {scenes : Dictionary String} {scene fallback target : Option String}
    (h : w.sceneTarget scenes scene fallback = (target, w')) : Quiet w w' := by
  have hquiet := sceneTarget w scenes scene fallback
  rwa [h] at hquiet

/-- A write to the signal found for a scene only calls the host. -/
theorem write_of_sceneTarget {scenes : Dictionary String} {scene fallback target : Option String}
    (h : w.sceneTarget scenes scene fallback = (target, w')) (signal : String) (value : Value)
    (ack : Bool) : Quiet w (w'.write signal value ack) :=
  (of_sceneTarget h).trans (afterCall w' _)

theorem unsubscribe_all (w : World H) (signals : List String) :
    Quiet w (signals.foldl World.unsubscribe w) := by
  induction signals generalizing w with
  | nil => exact refl w
  | cons signal rest ih => exact (afterCall w _).trans (ih _)

end Quiet

/-- A host that reports nothing while subscriptions end. -/
def QuietUnsubscribe (H : Type) [Host H] : Prop :=
  ∀ (host : H) signal, (Host.unsubscribe host signal).reports = []

/-- If the host reports nothing while subscriptions end, only the host changes. -/
theorem unsubscribe_all_eq [Host H] (hquiet : QuietUnsubscribe H) (w : World H)
    (signals : List String) : signals.foldl World.unsubscribe w =
      { w with host := (signals.foldl World.unsubscribe w).host } := by
  induction signals generalizing w with
  | nil => rfl
  | cons signal rest ih =>
    have hfirst : w.unsubscribe signal =
        { w with host := (Host.unsubscribe w.host signal).host } := by
      unfold World.unsubscribe World.afterCall
      rw [hquiet]
      rfl
    rw [List.foldl_cons, ih (w.unsubscribe signal), hfirst]

theorem queue_withTimeline (w : World H) (t : Timeline Fire) :
    (w.withTimeline t).queue = w.queue := by
  unfold withTimeline
  split <;> rfl

theorem host_withTimeline (w : World H) (t : Timeline Fire) : (w.withTimeline t).host = w.host := by
  unfold withTimeline
  split <;> rfl

theorem timeline_withTimeline (w : World H) (t : Timeline Fire) :
    (w.withTimeline t).timeline = t := by
  unfold withTimeline timeline
  cases w.service <;> rfl

theorem withTimeline_withTimeline (w : World H) (t t' : Timeline Fire) :
    (w.withTimeline t).withTimeline t' = w.withTimeline t' := by
  unfold withTimeline
  cases w.service <;> rfl

end World

namespace Engine

variable {H : Type}

/-! ### Closed properties -/

section Closed

variable [Host H]

/-- What a property has to survive to hold throughout a turn or a load. -/
structure Closed (P : Engine H → Prop) : Prop where
  inject : ∀ {e} value s, P e → P (e.inject value s)
  prime : ∀ {e} i, P e → P (e.primeRunner i)
  quiet : ∀ {e} {w : World H}, e.world.Quiet w → P e → P { e with world := w }

/-- The engine at the start of a load: the old graphs are gone, and the new ones are at hand. -/
def assemble (e : Engine H) (c : Configuration) : Engine H :=
  { e.teardown with
    generation := e.generation + 1
    scenes := c.scenes
    runners := ((buildGraphs [] c.graphs).1.map fun g => { graph := g }).toArray
    subscribers := subscriberTable (buildGraphs [] c.graphs).1 }

/-- The engine as it gives the value of a signal to the input bridges in a load. -/
def subscribed (e : Engine H) (signal : String) : Engine H :=
  { e with
    world := (({ e.world with registered := signal :: e.world.registered }.subscribe signal).read
      signal).2 }

/-- The value of a signal that a load finds. -/
def initialValue? (e : Engine H) (signal : String) : Option Value :=
  (({ e.world with registered := signal :: e.world.registered }.subscribe signal).read signal).1

/-- Connecting a signal subscribes to it, reads it, and injects its value if there is one. -/
theorem connect_eq (e : Engine H) (entry : String × List Subscriber) :
    e.connect entry =
      match e.initialValue? entry.1 with
      | some value => (e.subscribed entry.1).injectAll entry.2 value
      | none => e.subscribed entry.1 :=
  rfl

/-- A load assembles the graphs, connects the signals in the order of the table and primes each
graph. -/
theorem install_eq (e : Engine H) (c : Configuration) :
    (e.install c).2 = (List.range (buildGraphs [] c.graphs).1.length).foldl primeRunner
      ((subscriberTable (buildGraphs [] c.graphs).1).foldl connect (e.assemble c)) :=
  rfl

theorem quiet_subscribed (e : Engine H) (signal : String) :
    e.world.Quiet (e.subscribed signal).world :=
  ((World.Quiet.register _ _).trans (.afterCall _ _)).trans (.afterCall _ _)

namespace Closed

variable {P : Engine H → Prop} {e : Engine H}

theorem injectAll (hP : Closed P) (subscribers : List Subscriber) (value : Value) (h : P e) :
    P (e.injectAll subscribers value) := by
  unfold Engine.injectAll
  induction subscribers generalizing e with
  | nil => exact h
  | cons s rest ih => exact ih (hP.inject value s h)

/-- A change that is handled gives its value to input bridges. -/
theorem handle_change (hP : Closed P) (c : Change) (h : P e) : P (e.handle (.change c)) := by
  unfold handle
  dsimp only
  split
  · exact hP.injectAll _ _ h
  · exact h

theorem connect (hP : Closed P) (entry : String × List Subscriber) (h : P e) :
    P (e.connect entry) := by
  have hsubscribed : P (e.subscribed entry.1) := hP.quiet (quiet_subscribed e entry.1) h
  rw [connect_eq]
  split
  · exact hP.injectAll _ _ hsubscribed
  · exact hsubscribed

/-- What injections and subscriptions keep holds when all signals are connected. -/
theorem connectAll (hP : Closed P) (table : Dictionary (List Subscriber)) (h : P e) :
    P (table.foldl Engine.connect e) := by
  induction table generalizing e with
  | nil => exact h
  | cons entry rest ih => exact ih (hP.connect entry h)

/-- What priming one graph keeps holds when all graphs are primed. -/
theorem primeAll (hP : Closed P) (l : List Nat) (h : P e) : P (l.foldl primeRunner e) := by
  induction l generalizing e with
  | nil => exact h
  | cons i rest ih => exact ih (hP.prime i h)

/-- What holds at the start of a load holds at its end. -/
theorem install (hP : Closed P) {c : Configuration} (h : P (e.assemble c)) :
    P (e.install c).2 := by
  rw [install_eq]
  exact hP.primeAll _ (hP.connectAll _ h)

end Closed

end Closed

/-! ### Running graphs -/

theorem updateRunner_eq {e : Engine H} {i : Nat} {r : Runner} (hr : e.runners[i]? = some r)
    (f : Runner → World H → Runner × World H) :
    e.updateRunner i f =
      { e with
        runners := e.runners.setIfInBounds i (f r e.world).1, world := (f r e.world).2 } := by
  unfold updateRunner
  rw [hr]

/-- What holds of every running graph, given its number. -/
def AllRunners (e : Engine H) (P : Nat → Runner → Prop) : Prop :=
  ∀ (i : Nat) r, e.runners[i]? = some r → P i r

namespace AllRunners

variable {e : Engine H} {P : Nat → Runner → Prop}

/-- A graph is changed, and the others stay as they are. -/
theorem update {P' : Nat → Runner → Prop} {i : Nat} {f : Runner → World H → Runner × World H}
    (hf : ∀ {r} w, P i r → P' i (f r w).1) (hother : ∀ {j r}, i ≠ j → P j r → P' j r)
    (h : e.AllRunners P) : (e.updateRunner i f).AllRunners P' := by
  -- the index of the runner decides: at `i` the function is applied, elsewhere nothing changes
  unfold updateRunner
  split
  · next hnone =>
    intro j r hr
    by_cases hij : i = j
    · cases hnone.symm.trans (hij ▸ hr)
    · exact hother hij (h j r hr)
  · next r hr =>
    intro j r' hr'
    by_cases hij : i = j
    · subst hij
      rw [getElem?_setIfInBounds_of_some hr] at hr'
      cases hr'
      exact hf e.world (h i r hr)
    · rw [Array.getElem?_setIfInBounds_ne hij] at hr'
      exact hother hij (h j r' hr')

variable [Host H]

theorem closed (hP : ∀ i, Runner.Kept H (P i)) : Closed fun e : Engine H => e.AllRunners P where
  inject value s := update (fun w => (hP s.runner).inject _ w s.node value) fun _ h => h
  prime i := update (fun _ => (hP i).prime) fun _ h => h
  quiet _ h := h

/-- What each runner keeps when a fire is handled by it, the turn that handles the fire keeps. -/
theorem handle_timer (fire : Fire)
    (hP : ∀ {i r} (w : World H), P i r → P i (r.onTimer e.context w fire).1) (h : e.AllRunners P) :
    (e.handle (.timer fire)).AllRunners P := by
  unfold Engine.handle
  dsimp only
  split
  · exact h
  · split
    · exact h.update hP fun _ h => h
    · exact h

/-- Whatever a runner keeps when it receives a value and when its timers fire, a turn keeps for all
runners. -/
theorem handle (hP : ∀ i, Runner.Kept H (P i)) (event : Event) (h : e.AllRunners P) :
    (e.handle event).AllRunners P := by
  cases event with
  | change c => exact (closed hP).handle_change c h
  | timer fire => exact h.handle_timer fire fun {i _} w => (hP i).onTimer _ w fire

end AllRunners

theorem runner?_eq (e : Engine H) (graph : String) : e.runner? graph =
    (e.runners.findIdx? fun r => r.graph.id == graph).bind (e.runners[·]?) :=
  Array.find?_eq_bind_findIdx?_getElem?

/-- The running graphs are those of a configuration, with nodes that have changed. -/
def Runs (c : Configuration) (e : Engine H) : Prop :=
  e.AllRunners fun i r =>
    ∃ g, (buildGraphs [] c.graphs).1[i]? = some g ∧ g.Along Node.Step r.graph

namespace Runs

variable {c : Configuration} {e : Engine H} {i j : Nat} {r r' : Runner}

theorem sound (h : Runs c e) (hr : e.runners[i]? = some r) : r.graph.Sound := by
  obtain ⟨g, hg, halong⟩ := h i r hr
  exact halong.sound (fresh_of_mem_buildGraphs (List.mem_of_getElem? hg)).1.sound

/-- No node of a running graph has two timers under one key. -/
theorem uniqueKeys (h : Runs c e) (hr : r ∈ e.runners) {n : Node} (hn : n ∈ r.graph.nodes) :
    n.timers.UniqueKeys := by
  obtain ⟨i, hi⟩ := Array.getElem?_of_mem hr
  obtain ⟨j, hj⟩ := Array.getElem?_of_mem hn
  exact (h.sound hi).uniqueKeys j n hj

/-- Running graphs are told apart by their ids. -/
theorem eq_of_id_eq (h : Runs c e) (hr : e.runners[i]? = some r) (hr' : e.runners[j]? = some r')
    (hid : r.graph.id = r'.graph.id) : i = j := by
  obtain ⟨g, hg, halong⟩ := h i r hr
  obtain ⟨g', hg', halong'⟩ := h j r' hr'
  refine eq_of_id_eq_buildGraphs hg hg' ?_
  rw [← halong.id_eq, ← halong'.id_eq, hid]

/-- The running graph with an id is the one that has it. -/
theorem runner?_id (h : Runs c e) (hr : e.runners[i]? = some r) :
    e.runner? r.graph.id = some r := by
  have hindex : (e.runners.findIdx? fun r' => r'.graph.id == r.graph.id) = some i :=
    findIdx?_eq_some_of_unique hr (beq_self_eq_true _) fun hr' hid =>
      h.eq_of_id_eq hr' hr (beq_iff_eq.1 hid)
  rw [Engine.runner?_eq, hindex, Option.bind_some, hr]

end Runs

variable [Host H]

/-! ### Actions -/

/-- A part of a run. -/
inductive Action (H : Type) where
  /-- A configuration is loaded, up to the events that the host reports meanwhile. -/
  | install (c : Configuration)
  | stop
  /-- An event joins the queue: a change is delivered, or a fire, genuine or not. -/
  | post (event : Event)
  /-- The first waiting event is handled. -/
  | turn
  /-- The host, the clock and the timers that wait change on their own. -/
  | outside (host : H) (clock : Timeline Fire) (service : TimerService)

def act (e : Engine H) : Action H → Engine H
  | .install c => (e.install c).2
  | .stop => e.stop
  | .post event => { e with world := { e.world with queue := e.world.queue ++ [event] } }
  | .turn => e.turn?.getD e
  | .outside host clock service =>
    { e with world := { e.world with host := host, clock := clock, service := service } }

/-- The engine with other events in its queue. -/
def withQueue (e : Engine H) (queue : List Event) : Engine H :=
  { e with world := { e.world with queue := queue } }

def run (e : Engine H) (actions : List (Action H)) : Engine H :=
  actions.foldl act e

/-- A run may be cut in two at any place. -/
theorem run_append (e : Engine H) (as bs : List (Action H)) :
    e.run (as ++ bs) = (e.run as).run bs :=
  List.foldl_append

/-- An engine that has not loaded anything. -/
def new (host : H) (clock : Timeline Fire) : Engine H :=
  { world := { host := host, clock := clock } }

/-- A state before the first load. -/
structure Fresh (e : Engine H) : Prop where
  runners : e.runners = #[]
  subscribers : e.subscribers = []
  registered : e.world.registered = []
  queue : e.world.queue = []
  pending : e.world.timeline.pending = []

omit [Host H] in
theorem fresh_new (host : H) {clock : Timeline Fire} (h : clock.pending = []) :
    (new host clock).Fresh :=
  ⟨rfl, rfl, rfl, rfl, h⟩

/-- A small configuration with a timer: a constant starts a delay. -/
def delayed : Configuration :=
  { graphs := [{
      id := "g"
      nodes := [{ id := "c", typeName := "const", params := [("value", .bool true)] },
        { id := "d", typeName := "delay_on" }]
      links := [⟨⟨"c", "out"⟩, ⟨"d", "in"⟩⟩] }] }

/-- A state between two actions. -/
inductive Reachable : Engine H → Prop
  | fresh {e : Engine H} (h : e.Fresh) : Reachable e
  | act {e : Engine H} (a : Action H) (h : Reachable e) : Reachable (e.act a)

/-- Whatever is done to a reachable engine, it stays reachable. -/
theorem Reachable.run {e : Engine H} (h : Reachable e) (as : List (Action H)) :
    Reachable (e.run as) := by
  induction as generalizing e with
  | nil => exact h
  | cons a rest ih => exact ih (h.act a)

/-! ### Requests -/

/-- What a caller asks of the engine, and what the host does on its own. -/
inductive Request (H : Type) where
  | load (c : Configuration)
  | stop
  | change (c : Change)
  | advance (millis : Nat)
  | shiftLocal (millis : Int)
  | host (host : H)

/-- Serves a request; undefined if more turns than `limit` would be needed. -/
def serve (limit : Nat) (e : Engine H) : Request H → Option (Engine H)
  | .load c => (e.load limit c).map Prod.snd
  | .stop => some e.stop
  | .change c => e.change limit c
  | .advance millis => (e.advance limit millis).map Prod.snd
  | .shiftLocal millis => some (e.shiftLocal millis)
  | .host host => some { e with world := { e.world with host := host } }

/-- Serves requests one after the other. -/
def serveAll (limit : Nat) (e : Engine H) : List (Request H) → Option (Engine H)
  | [] => some e
  | request :: rest => (e.serve limit request).bind fun e => e.serveAll limit rest

/-- The ways a request can be served. -/
inductive ServeOutcome (limit : Nat) (e : Engine H) : Request H → Engine H → Prop
  | load {c : Configuration} {e' : Engine H} (hsettle : settle limit (e.install c).2 = some e') :
    ServeOutcome limit e (.load c) e'
  | stop : ServeOutcome limit e .stop e.stop
  /-- A change joins the queue and is handled. -/
  | handled {c : Change} {e' : Engine H}
    (hsettle : settle limit (e.act (.post (.change c))) = some e') :
    ServeOutcome limit e (.change c) e'
  /-- No running graph receives the signal of a change. -/
  | ignored {c : Change} : ServeOutcome limit e (.change c) e
  | advance {millis n : Nat} {e' : Engine H} (hadvance : e.advance limit millis = some (n, e')) :
    ServeOutcome limit e (.advance millis) e'
  | shiftLocal {millis : Int} : ServeOutcome limit e (.shiftLocal millis) (e.shiftLocal millis)
  | host {host : H} :
    ServeOutcome limit e (.host host) { e with world := { e.world with host := host } }

/-- Serving a request comes to one of the cases of `ServeOutcome`. -/
theorem serve_outcome {limit : Nat} {e e' : Engine H} {request : Request H}
    (h : e.serve limit request = some e') : e.ServeOutcome limit request e' := by
  -- each kind of request is opened up to the turn that it ends with
  cases request with
  | load c =>
    obtain ⟨⟨report, e'⟩, hload, rfl⟩ := Option.map_eq_some_iff.1 h
    obtain ⟨e'', hsettle, heq⟩ := Option.map_eq_some_iff.1 hload
    cases heq
    exact .load hsettle
  | change c =>
    dsimp only [serve, change] at h
    split at h
    · exact .handled h
    · cases h
      exact .ignored
  | advance millis =>
    obtain ⟨⟨n, e'⟩, hadvance, rfl⟩ := Option.map_eq_some_iff.1 h
    exact .advance hadvance
  | stop =>
    cases h
    exact .stop
  | shiftLocal millis =>
    cases h
    exact .shiftLocal
  | host host =>
    cases h
    exact .host

/-- A state between two requests. -/
inductive AtRest : Engine H → Prop
  | fresh {e : Engine H} (h : e.Fresh) : AtRest e
  | serve {e e' : Engine H} (limit : Nat) (request : Request H) (h : AtRest e)
    (hserve : e.serve limit request = some e') : AtRest e'

/-! ### Turns -/

section Turns

variable {e e' : Engine H}

/-- There is no turn exactly if the queue is empty. -/
theorem turn?_eq_none_iff : e.turn? = none ↔ e.world.queue = [] := by
  unfold turn?
  split <;> simp_all

/-- A turn takes the first event from the queue and handles it. -/
theorem turn?_eq_some (h : e.turn? = some e') : ∃ event rest, e.world.queue = event :: rest ∧
    e' = (e.withQueue rest).handle event := by
  unfold turn? at h
  split at h
  · cases h
  · next event rest hqueue => exact ⟨event, rest, hqueue, (Option.some.inj h).symm⟩

theorem act_turn (h : e.turn? = some e') : e.act .turn = e' := by
  rw [act, h, Option.getD_some]

/-- The first turn that is needed, and the rest of them. -/
theorem exists_settle_of_turn? {e'' : Engine H} {limit : Nat} (hturn : e.turn? = some e'')
    (h : settle limit e = some e') : ∃ rest, settle rest e'' = some e' := by
  unfold settle at h
  rw [hturn] at h
  cases limit with
  | zero => cases h
  | succ rest => exact ⟨rest, h⟩

/-- What every turn keeps holds when no event waits any more. -/
theorem settle_induct {P : Engine H → Prop} (hturn : ∀ {e e'}, e.turn? = some e' → P e → P e')
    {limit : Nat} (h : settle limit e = some e') (he : P e) : P e' ∧ e'.world.queue = [] := by
  induction limit generalizing e with
  | zero =>
    unfold settle at h
    split at h
    · next hnone =>
      cases h
      exact ⟨he, turn?_eq_none_iff.1 hnone⟩
    · cases h
  | succ limit ih =>
    unfold settle at h
    split at h
    · next hnone =>
      cases h
      exact ⟨he, turn?_eq_none_iff.1 hnone⟩
    · next e'' hsome => exact ih h (hturn hsome he)

end Turns

namespace Reachable

variable {e e' : Engine H}

/-- Working off the queue is a run of turns. -/
theorem settle {limit : Nat} (he : Reachable e) (h : Engine.settle limit e = some e') :
    Reachable e' :=
  (settle_induct (fun hturn h => act_turn hturn ▸ h.act .turn) h he).1

/-- An event that is posted and worked off leads to a reachable engine. -/
theorem submit {limit : Nat} {event : Event} (he : Reachable e)
    (h : e.submit limit event = some e') : Reachable e' :=
  (he.act (.post event)).settle h

/-- Time that passes on the clock is a change from outside. -/
theorem withTimeline (he : Reachable e) (t : Timeline Fire) :
    Reachable { e with world := e.world.withTimeline t } := by
  -- wherever the service keeps its timeline, the outside may change it
  have hact : { e with world := e.world.withTimeline t } = e.act (.outside e.world.host
      (e.world.withTimeline t).clock (e.world.withTimeline t).service) := by
    show _ = { e with world := { e.world with
      clock := (e.world.withTimeline t).clock, service := (e.world.withTimeline t).service } }
    unfold World.withTimeline
    split <;> rfl
  rw [hact]
  exact he.act _

end Reachable

/-- A request is made of actions. -/
theorem AtRest.reachable {e : Engine H} (h : AtRest e) : Reachable e := by
  induction h with
  | fresh h => exact .fresh h
  | @serve e e' limit request _ hserve ih =>
    cases serve_outcome hserve with
    | @load c _ hsettle => exact (ih.act (.install c)).settle hsettle
    | stop => exact ih.act .stop
    | @handled c _ hsettle => exact (ih.act (.post (.change c))).settle hsettle
    | ignored => exact ih
    | advance hadvance =>
      -- the clock moves on from outside, and each timer that falls due is submitted
      refine Owner.advanceTo_induct (P := Reachable) ?_ ?_ hadvance ih
      · intro e fire t e' _ hfire he
        exact (he.withTimeline t).submit hfire
      · intro e he
        exact he.withTimeline _
    | shiftLocal => exact ih.act (.outside _ _ _)
    | @host host => exact ih.act (.outside host _ _)

/-- When the queue has been worked off, it is empty. -/
theorem queue_eq_nil_of_settle {limit : Nat} {e e' : Engine H} (h : settle limit e = some e') :
    e'.world.queue = [] :=
  (settle_induct (P := fun _ => True) (fun _ _ => trivial) h trivial).2

/-- No event waits between two requests. -/
theorem AtRest.queue_eq_nil {e : Engine H} (h : AtRest e) : e.world.queue = [] := by
  induction h with
  | fresh h => exact h.queue
  | serve limit request _ hserve ih =>
    cases serve_outcome hserve with
    | load hsettle | handled hsettle => exact queue_eq_nil_of_settle hsettle
    | stop => rfl
    | advance hadvance =>
      refine Owner.advanceTo_induct (P := fun e : Engine H => e.world.queue = []) ?_ ?_ hadvance ih
      · intro e fire t e' _ hfire _
        exact queue_eq_nil_of_settle hfire
      · intro e he
        exact (World.queue_withTimeline e.world _).trans he
    | ignored | shiftLocal | host => exact ih

/-- A load after which no event waits is complete. -/
theorem AtRest.install {e : Engine H} (h : AtRest e) {c : Configuration}
    (hqueue : (e.install c).2.world.queue = []) : AtRest (e.install c).2 := by
  refine h.serve 0 (.load c) ?_
  show ((settle 0 (e.install c).2).map _).map Prod.snd = _
  unfold settle
  rw [turn?_eq_none_iff.2 hqueue]
  rfl

/-! ### Running graphs along a run -/

namespace AllRunners

variable {e : Engine H} {P : Nat → Runner → Prop}

/-- What holds of the graphs as they are built holds after the assembly. -/
theorem assemble {c : Configuration}
    (hbuilt : ∀ (i : Nat) g, (buildGraphs [] c.graphs).1[i]? = some g → P i { graph := g }) :
    (e.assemble c).AllRunners P := by
  intro i r hr
  rw [Engine.assemble, List.getElem?_toArray, List.getElem?_map] at hr
  obtain ⟨g, hg, rfl⟩ := Option.map_eq_some_iff.1 hr
  exact hbuilt i g hg

/-- What holds of the graphs as they are built and what runners keep holds after a load. -/
theorem install (hP : ∀ i, Runner.Kept H (P i)) {c : Configuration}
    (hbuilt : ∀ (i : Nat) g, (buildGraphs [] c.graphs).1[i]? = some g → P i { graph := g }) :
    (e.install c).2.AllRunners P :=
  (closed hP).install (assemble hbuilt)

theorem stop (e : Engine H) : e.stop.AllRunners P :=
  fun _ _ hr => nomatch hr

theorem turn? (hP : ∀ i, Runner.Kept H (P i)) {e' : Engine H} (hturn : e.turn? = some e')
    (h : e.AllRunners P) : e'.AllRunners P := by
  obtain ⟨event, rest, -, rfl⟩ := turn?_eq_some hturn
  exact handle hP event h

/-- What runners keep, every action but a load keeps. -/
theorem act (hP : ∀ i, Runner.Kept H (P i)) {a : Action H} (ha : ∀ c, a ≠ .install c)
    (h : e.AllRunners P) : (e.act a).AllRunners P := by
  cases a with
  | install c => exact (ha c rfl).elim
  | stop => exact stop e
  | post | outside => exact h
  | turn =>
    show (e.turn?.getD e).AllRunners P
    cases hturn : e.turn? with
    | none => exact h
    | some e' => exact turn? hP hturn h

/-- What runners keep, every run without a load keeps. -/
theorem run (hP : ∀ i, Runner.Kept H (P i)) {as : List (Action H)}
    (has : ∀ a ∈ as, ∀ c, a ≠ .install c) (h : e.AllRunners P) : (e.run as).AllRunners P := by
  induction as generalizing e with
  | nil => exact h
  | cons a rest ih =>
    have hact := h.act hP (has a List.mem_cons_self)
    exact ih (fun b hb => has b (List.mem_cons_of_mem _ hb)) hact

end AllRunners

/-- Each runner goes on with the graph that was built at its place, by steps of its nodes. -/
theorem kept_runs (c : Configuration) (i : Nat) : Runner.Kept H fun r =>
    ∃ g, (buildGraphs [] c.graphs).1[i]? = some g ∧ g.Along Node.Step r.graph :=
  Runner.kept_exists fun g => (Runner.kept_const _).and (Runner.kept_along g)

/-- After a load the graphs of its configuration run. -/
theorem runs_install (e : Engine H) (c : Configuration) : Runs c (e.install c).2 :=
  .install (kept_runs c) fun _ g hg => ⟨g, hg, .refl g⟩

/-- A reachable engine runs the graphs of some configuration, which may be the empty one. -/
theorem Reachable.exists_runs {e : Engine H} (h : Reachable e) : ∃ c, Runs c e := by
  induction h with
  | fresh h => exact ⟨{}, fun i r hr => by simp [h.runners] at hr⟩
  | @act e a _ ih =>
    obtain ⟨c, hc⟩ := ih
    by_cases ha : ∃ c', a = .install c'
    · obtain ⟨c', rfl⟩ := ha
      exact ⟨c', runs_install e c'⟩
    · exact ⟨c, hc.act (kept_runs c) fun c' h => ha ⟨c', h⟩⟩

end Engine

end SignalGraph
