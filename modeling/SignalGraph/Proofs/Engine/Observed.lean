import SignalGraph.Proofs.Engine.Jobs
import SignalGraph.Proofs.Engine.Reload
import SignalGraph.Proofs.Engine.Routing

/-!
# Observing one graph

Jobs (`Engine.Job`) are done for one graph at a time, so every call to the host that a node makes
can be put down to a graph. `Observed` is an engine on a host with a log, with the calls that the
nodes of one graph have made so far; it serves the same requests with the same results
(`Observed.engine_serveAll`). What an observer sees of a graph between two requests is its
`Portrait`.
-/

namespace SignalGraph

/-! ### The calls of one graph -/

/-- An engine on a host with a log, and the calls that the nodes of one graph have made. -/
structure Observed (H : Type) where
  engine : Engine (Logged H)
  notes : List HostEntry := []

namespace Observed

open Engine

variable {H : Type} [Host H] (graph : String)

/-- Does a job. What the host logs meanwhile is noted down if the job is for the graph with this
id. -/
def perform (o : Observed H) (job : Job) : Observed H :=
  { engine := o.engine.perform job
    notes :=
      if (o.engine.runners[job.runner]?.map fun r => r.graph.id) = some graph then
        o.notes ++ (o.engine.perform job).world.host.log.drop o.engine.world.host.log.length
      else o.notes }

def performAll (o : Observed H) (jobs : List Job) : Observed H :=
  jobs.foldl (perform graph) o

def handle (o : Observed H) (event : Event) : Observed H :=
  o.performAll graph (o.engine.jobs event)

/-- The same observer of another state of the engine. -/
def withEngine (o : Observed H) (e : Engine (Logged H)) : Observed H :=
  { o with engine := e }

/-- Handles waiting events until none is left. -/
def settle : Nat → Observed H → Option (Observed H)
  | limit, o =>
    match o.engine.world.queue with
    | [] => some o
    | event :: rest =>
      match limit with
      | 0 => none
      | limit + 1 => settle limit ((o.withEngine (o.engine.withQueue rest)).handle graph event)

def submit (limit : Nat) (o : Observed H) (event : Event) : Option (Observed H) :=
  settle graph limit (o.withEngine (o.engine.withQueue (o.engine.world.queue ++ [event])))

def connect (o : Observed H) (entry : String × List Subscriber) : Observed H :=
  match o.engine.initialValue? entry.1 with
  | some value =>
    (o.withEngine (o.engine.subscribed entry.1)).performAll graph (deliveries entry.2 value)
  | none => o.withEngine (o.engine.subscribed entry.1)

def install (o : Observed H) (c : Configuration) : Observed H :=
  let graphs := (buildGraphs [] c.graphs).1
  let o := (subscriberTable graphs).foldl (connect graph) (o.withEngine (o.engine.assemble c))
  o.performAll graph ((List.range graphs.length).map fun i => ⟨i, .prime⟩)

/-- The engine owns the timeline on which its timers wait. -/
def owner (limit : Nat) : Owner (Observed H) Fire :=
  { timeline := fun o => o.engine.world.timeline
    withTimeline := fun o t =>
      o.withEngine { o.engine with world := o.engine.world.withTimeline t }
    fire := fun o fire => o.submit graph limit (.timer fire) }

/-- Serves a request. -/
def serve (limit : Nat) (o : Observed H) : Request (Logged H) → Option (Observed H)
  | .load c => (o.install graph c).settle graph limit
  | .stop => some (o.withEngine o.engine.stop)
  | .change c =>
    if o.engine.world.registered.contains c.signal then o.submit graph limit (.change c) else some o
  | .advance millis => ((owner graph limit).advance limit millis o).map Prod.snd
  | .shiftLocal millis => some (o.withEngine (o.engine.shiftLocal millis))
  | .host host =>
    some (o.withEngine { o.engine with world := { o.engine.world with host := host } })

def serveAll (limit : Nat) (o : Observed H) : List (Request (Logged H)) → Option (Observed H)
  | [] => some o
  | request :: rest => (o.serve graph limit request).bind fun o => o.serveAll limit rest

/-! ### Observing changes nothing -/

variable {graph}

theorem engine_performAll (o : Observed H) (jobs : List Job) :
    (o.performAll graph jobs).engine = jobs.foldl Engine.perform o.engine := by
  unfold performAll
  induction jobs generalizing o with
  | nil => rfl
  | cons job rest ih => exact ih (o.perform graph job)

theorem engine_handle (o : Observed H) (event : Event) :
    (o.handle graph event).engine = o.engine.handle event :=
  (o.engine_performAll _).trans (o.engine.handle_eq event).symm

theorem engine_settle (limit : Nat) (o : Observed H) :
    (o.settle graph limit).map engine = o.engine.settle limit := by
  induction limit generalizing o with
  | zero =>
    unfold settle Engine.settle turn?
    cases o.engine.world.queue <;> rfl
  | succ limit ih =>
    unfold settle Engine.settle turn?
    cases o.engine.world.queue with
    | nil => rfl
    | cons event rest =>
      have hnext := ih ((o.withEngine (o.engine.withQueue rest)).handle graph event)
      rwa [engine_handle] at hnext

theorem engine_submit (limit : Nat) (o : Observed H) (event : Event) :
    (o.submit graph limit event).map engine = o.engine.submit limit event :=
  engine_settle limit (o.withEngine (o.engine.withQueue (o.engine.world.queue ++ [event])))

theorem engine_connectAll (table : Dictionary (List Subscriber)) (o : Observed H) :
    (table.foldl (connect graph) o).engine = table.foldl Engine.connect o.engine := by
  have hconnect : ∀ (o : Observed H) entry,
      (o.connect graph entry).engine = o.engine.connect entry := by
    intro o entry
    rw [connect, connect_eq]
    cases o.engine.initialValue? entry.1 with
    | none => rfl
    | some value =>
      dsimp only
      rw [engine_performAll, injectAll_eq]
      rfl
  induction table generalizing o with
  | nil => rfl
  | cons entry rest ih => rw [List.foldl_cons, List.foldl_cons, ih, hconnect]

theorem engine_install (o : Observed H) (c : Configuration) :
    (o.install graph c).engine = (o.engine.install c).2 := by
  unfold install
  dsimp only
  rw [engine_performAll, engine_connectAll, Engine.install_eq, List.foldl_map]
  rfl

theorem hom_engine (limit : Nat) :
    Owner.Hom (owner graph limit) (Engine.owner (H := Logged H) limit) engine id id where
  timeline _ := rfl
  withTimeline _ _ := rfl
  fire o fire := (o.engine_submit limit (.timer fire)).symm
  popDue? t target := by rw [Prod.map_id, Option.map_id]; rfl
  reach _ _ := rfl

theorem engine_serve (limit : Nat) (o : Observed H) (request : Request (Logged H)) :
    (o.serve graph limit request).map engine = o.engine.serve limit request := by
  cases request with
  | load c =>
    have hsettle : ((o.install graph c).settle graph limit).map engine =
        (o.install graph c).engine.settle limit := engine_settle limit (o.install graph c)
    rw [engine_install] at hsettle
    rw [serve, hsettle, Engine.serve, load, Option.map_map]
    exact Option.map_id'.symm
  | change c =>
    rw [serve, Engine.serve, change]
    split
    · exact o.engine_submit limit (.change c)
    · rfl
  | advance millis =>
    have hhom : Owner.Hom (owner graph limit) (Engine.owner (H := Logged H) limit) engine id id :=
      hom_engine limit
    have hadvance := hhom.advanceTo (o.engine.world.timeline.elapsed + millis) limit 0 o
    show (((owner graph limit).advance limit millis o).map Prod.snd).map engine =
      ((Engine.owner limit).advanceTo (o.engine.world.timeline.elapsed + millis) limit 0
        o.engine).map Prod.snd
    rw [hadvance, Option.map_map, Option.map_map]
    rfl
  | stop | shiftLocal | host => rfl

/-- The observed engine serves the same requests, with the same results. -/
theorem engine_serveAll (limit : Nat) (o : Observed H) (requests : List (Request (Logged H))) :
    (o.serveAll graph limit requests).map engine = o.engine.serveAll limit requests := by
  induction requests generalizing o with
  | nil => rfl
  | cons request rest ih =>
    have hserve : (o.serve graph limit request).map engine = o.engine.serve limit request :=
      o.engine_serve limit request
    rw [serveAll, Engine.serveAll, ← hserve]
    cases o.serve graph limit request with
    | none => rfl
    | some o' => exact ih o'

end Observed

/-- The calls that the nodes of a graph make while requests are served. -/
def Engine.callsOf {H : Type} [Host H] (graph : String) (limit : Nat) (e : Engine (Logged H))
    (requests : List (Request (Logged H))) : List HostEntry :=
  match ({ engine := e } : Observed H).serveAll graph limit requests with
  | some o => o.notes
  | none => []

/-! ### Portraits -/

/-- What can be seen of a node: all but the tokens and the tickets of its timers. -/
structure NodePortrait where
  id : String
  enabled : Bool
  behavior : Behavior
  ports : Ports
  /-- The keys of the armed timers, with the time that remains until they fire. -/
  timers : List (TimerKey × Option Nat)

/-- What can be seen of a running graph. -/
structure Portrait where
  nodes : List NodePortrait
  links : List Link
  lastSteps : Nat
  truncatedPasses : Nat

def Node.portrait (elapsed : Nat) (n : Node) : NodePortrait :=
  { id := n.id
    enabled := n.enabled
    behavior := n.behavior
    ports := n.ports
    timers := n.timers.map fun t => (t.key, t.ticket.map fun ticket => ticket.due - elapsed) }

def Runner.portrait (elapsed : Nat) (r : Runner) : Portrait :=
  { nodes := r.graph.nodes.toList.map (Node.portrait elapsed)
    links := r.graph.links
    lastSteps := r.lastSteps
    truncatedPasses := r.truncatedPasses }

/-- What can be seen of the running graph with this id. -/
def Engine.portrait? {H : Type} (e : Engine H) (graph : String) : Option Portrait :=
  (e.runner? graph).map (Runner.portrait e.world.timeline.elapsed)

end SignalGraph
