import SignalGraph.Engine.Propagation
import SignalGraph.Graph.Build

/-!
# The engine

The engine runs the graphs of the last configuration loaded. It handles one event at a time, each as
a complete turn; events that arrive during a turn or a load wait in the queue of the world.

Operations that handle events take a limit: they are undefined (`none`) if more turns than that
would be needed, as a host that answers every write with a change may never come to rest.
-/

namespace SignalGraph

/-- An input bridge that receives a signal: the numbers of its graph and of its node. -/
structure Subscriber where
  runner : Nat
  node : Nat
  deriving DecidableEq, Repr, Inhabited

/-- The engine, on a host with state of type `H`. -/
structure Engine (H : Type) where
  world : World H
  settings : Settings := {}
  /-- The number of loads so far. -/
  generation : Nat := 0
  /-- The signals of scenes in the last configuration. -/
  scenes : Dictionary String := []
  runners : Array Runner := #[]
  /-- The input bridges that receive each signal, in order. -/
  subscribers : Dictionary (List Subscriber) := []

/-- What a load has done. -/
structure LoadReport where
  /-- The number of running graphs. -/
  graphs : Nat
  /-- The number of signals subscribed to. -/
  signals : Nat
  /-- What was left out, with the id of its graph. -/
  errors : List (String × ConfigError)
  deriving DecidableEq, Repr

namespace Engine

variable {H : Type}

/-! ### Views -/

/-- What stays fixed until the next load. -/
def context (e : Engine H) : LoadContext :=
  { generation := e.generation, settings := e.settings, scenes := e.scenes }

/-- The running graph with an id. -/
def runner? (e : Engine H) (graph : String) : Option Runner :=
  e.runners.find? fun r => r.graph.id == graph

/-- The value of an output port of a running graph. -/
def output? (e : Engine H) (graph : String) (port : Endpoint) : Option Value :=
  (e.runner? graph).bind fun r => r.graph.output? port

/-- The value of an input port of a running graph. -/
def input? (e : Engine H) (graph : String) (port : Endpoint) : Option Value :=
  (e.runner? graph).bind fun r => r.graph.input? port

/-- The signals that input bridges receive, in order. -/
def subscribedSignals (e : Engine H) : List String :=
  e.subscribers.keys

/-! ### Turns -/

variable [Host H]

/-- Changes one running graph together with the world. -/
def updateRunner (e : Engine H) (i : Nat) (f : Runner → World H → Runner × World H) : Engine H :=
  match e.runners[i]? with
  | none => e
  | some r =>
    let (r, w) := f r e.world
    { e with runners := e.runners.setIfInBounds i r, world := w }

/-- Gives a value of its signal to one input bridge. -/
def inject (value : Value) (e : Engine H) (s : Subscriber) : Engine H :=
  e.updateRunner s.runner fun r w => r.inject e.context w s.node value

/-- Gives a value to all input bridges in a list. -/
def injectAll (e : Engine H) (subscribers : List Subscriber) (value : Value) : Engine H :=
  subscribers.foldl (inject value) e

/-- Handles one event. A fire of an earlier load does nothing. -/
def handle (e : Engine H) : Event → Engine H
  | .change c =>
    match e.subscribers.find? c.signal with
    | some subscribers => e.injectAll subscribers c.value
    | none => e
  | .timer fire =>
    if fire.generation ≠ e.generation then e
    else
      match e.runners.findIdx? fun r => r.graph.id == fire.graph with
      | some i => e.updateRunner i fun r w => r.onTimer e.context w fire
      | none => e

/-- Handles the first waiting event; `none` if none waits. -/
def turn? (e : Engine H) : Option (Engine H) :=
  match e.world.queue with
  | [] => none
  | event :: rest => some (handle { e with world := { e.world with queue := rest } } event)

/-- Handles waiting events until none is left. -/
def settle : Nat → Engine H → Option (Engine H)
  | limit, e =>
    match e.turn? with
    | none => some e
    | some e =>
      match limit with
      | 0 => none
      | limit + 1 => settle limit e

/-- Lets an event wait and handles all that wait. -/
def submit (limit : Nat) (e : Engine H) (event : Event) : Option (Engine H) :=
  settle limit { e with world := { e.world with queue := e.world.queue ++ [event] } }

/-! ### Loading and stopping -/

/-- Cancels all timers of a graph. -/
def cancelTimers (w : World H) (r : Runner) : World H :=
  r.graph.nodes.foldl (fun w n => n.timers.foldl World.cancelTimer w) w

/-- Stops all graphs: cancels their timers and drops every subscription. -/
def teardown (e : Engine H) : Engine H :=
  let w := e.runners.foldl cancelTimers e.world
  let w := e.subscribers.keys.foldl World.unsubscribe w
  { e with world := { w with registered := [] }, runners := #[], subscribers := [] }

/-- Builds the enabled graphs of a list, of graphs with one id only the first. -/
def buildGraphs : List String → List GraphDecl → List Graph × List (String × ConfigError)
  | _, [] => ([], [])
  | taken, d :: ds =>
    if !d.enabled then buildGraphs taken ds
    else if taken.contains d.id then
      let (graphs, errors) := buildGraphs taken ds
      (graphs, (d.id, .duplicateGraph d.id) :: errors)
    else
      let (graph, own) := Graph.build d
      let (graphs, errors) := buildGraphs (d.id :: taken) ds
      (graph :: graphs, own.map (fun error => (d.id, error)) ++ errors)

/-- Adds an input bridge to those that receive a signal. -/
def addSubscriber (table : Dictionary (List Subscriber)) (signal : String) (s : Subscriber) :
    Dictionary (List Subscriber) :=
  table.insert signal ((table.find? signal).getD [] ++ [s])

/-- The input bridges that receive each signal. -/
def subscriberTable (graphs : List Graph) : Dictionary (List Subscriber) :=
  graphs.zipIdx.foldl
    (fun table (g, i) =>
      g.inputBridges.foldl (fun table (node, signal) => addSubscriber table signal ⟨i, node⟩) table)
    []

/-- Registers a signal, subscribes to it, and gives its current value to its bridges. -/
def connect (e : Engine H) (entry : String × List Subscriber) : Engine H :=
  let (signal, subscribers) := entry
  let w := { e.world with registered := signal :: e.world.registered }.subscribe signal
  let (value, w) := w.read signal
  let e := { e with world := w }
  match value with
  | some value => e.injectAll subscribers value
  | none => e

/-- Evaluates the nodes of one graph after a load. -/
def primeRunner (e : Engine H) (i : Nat) : Engine H :=
  e.updateRunner i fun r w => r.prime e.context w

/-- Replaces the graphs, up to the events that the host reports meanwhile. -/
def install (e : Engine H) (c : Configuration) : LoadReport × Engine H :=
  let e := e.teardown
  let (graphs, errors) := buildGraphs [] c.graphs
  let table := subscriberTable graphs
  let e : Engine H :=
    { e with
      generation := e.generation + 1
      scenes := c.scenes
      runners := (graphs.map fun g => { graph := g }).toArray
      subscribers := table }
  let e := table.foldl connect e
  let e := (List.range graphs.length).foldl primeRunner e
  ({ graphs := graphs.length, signals := table.length, errors := errors }, e)

/-- Replaces the running graphs by those of a configuration. -/
def load (limit : Nat) (e : Engine H) (c : Configuration) : Option (LoadReport × Engine H) :=
  let (report, e) := e.install c
  (e.settle limit).map fun e => (report, e)

/-- Stops all graphs. Events that still wait are dropped. -/
def stop (e : Engine H) : Engine H :=
  let e := e.teardown
  { e with world := { e.world with queue := [] } }

/-! ### Changes and time -/

/-- Delivers a change of an outside signal. It is ignored unless some graph receives the signal. -/
def change (limit : Nat) (e : Engine H) (c : Change) : Option (Engine H) :=
  if e.world.registered.contains c.signal then e.submit limit (.change c) else some e

/-- The engine owns the timeline on which its timers wait. -/
def owner (limit : Nat) : Owner (Engine H) Fire :=
  { timeline := fun e => e.world.timeline
    withTimeline := fun e t => { e with world := e.world.withTimeline t }
    fire := fun e fire => e.submit limit (.timer fire) }

/-- Lets so many milliseconds pass and gives the number of timers fired. -/
def advance (limit millis : Nat) (e : Engine H) : Option (Nat × Engine H) :=
  (owner limit).advance limit millis e

/-- Moves the local wall clock alone. -/
def shiftLocal (e : Engine H) (millis : Int) : Engine H :=
  { e with world := { e.world with clock := e.world.clock.shiftLocal millis } }

end Engine

end SignalGraph
