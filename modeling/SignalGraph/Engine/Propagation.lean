import SignalGraph.Engine.Evaluation

/-!
# Propagation

A pass follows links from the output ports that have changed. The ports wait in a queue; the value
of a port is taken when its turn comes, and goes to its targets one after the other. A target whose
value is not the same any more is evaluated at once, and its changed outputs join the queue. A
node may be evaluated several times in one pass, so that edge detectors and counters see every
value.

Following one link is a step. A pass that has no step left while a link is due is cut short, which
bounds feedback loops that never settle.
-/

namespace SignalGraph

/-- The links that are still to be followed in a pass. -/
structure Frontier where
  /-- The value of the port whose turn it is. -/
  value : Value
  /-- Its targets that are still due. -/
  targets : List PortRef
  /-- The ports that wait, the next one first. -/
  sources : List PortRef
  /-- The ports that wait behind `sources`, the last one first. -/
  later : List PortRef := []

/-- The end of a pass. -/
structure PassResult (H : Type) where
  stage : Stage H
  /-- The steps that were not used. -/
  remaining : Nat
  /-- Whether the pass was cut short. -/
  truncated : Bool

namespace Frontier

/-- The ports that have just changed. -/
def ofSources (sources : List PortRef) : Frontier :=
  { value := .null, targets := [], sources := sources }

/-- All ports that wait, in the order of their turns. -/
def waiting (f : Frontier) : List PortRef :=
  f.sources ++ f.later.reverse

/-- The first link due from a list of ports, while those in `later` wait behind them. -/
def nextSource? (g : Graph) (later : List PortRef) :
    List PortRef → Option (Value × PortRef × Frontier)
  | [] => none
  | source :: rest =>
    match g.targets source with
    | [] => nextSource? g later rest
    | target :: targets =>
      let value := g.outputAt source
      some (value, target, { value := value, targets := targets, sources := rest, later := later })

/-- The next link that is due: the value to pass on, the target, and what is due after it. -/
def next? (f : Frontier) (g : Graph) : Option (Value × PortRef × Frontier) :=
  match f.targets with
  | target :: targets => some (f.value, target, { f with targets := targets })
  | [] =>
    match nextSource? g f.later f.sources with
    | some due => some due
    | none => nextSource? g [] f.later.reverse

/-- Lets changed ports wait behind the others. -/
def enqueue (f : Frontier) (changed : List PortRef) : Frontier :=
  { f with later := changed.reverse ++ f.later }

@[simp] theorem waiting_enqueue (f : Frontier) (changed : List PortRef) :
    (f.enqueue changed).waiting = f.waiting ++ changed := by
  simp [waiting, enqueue]

end Frontier

variable {H : Type} [Host H]

namespace Stage

/-- Passes a value on to an input port, and evaluates its node if the value has changed. -/
def deliver (ctx : LoadContext) (s : Stage H) (value : Value) (target : PortRef) :
    Stage H × List PortRef :=
  match s.graph.nodes[target.node]? with
  | none => (s, [])
  | some node =>
    if (node.ports.inputAt target.port).same value then (s, [])
    else
      let node' := { node with ports := node.ports.setInputAt target.port value }
      let nodes := s.graph.nodes.setIfInBounds target.node node'
      let s := { s with graph := { s.graph with nodes := nodes } }
      if node.enabled then s.evaluate ctx target.node .inputs else (s, [])

/-- Follows links until none is due or no step is left. -/
def propagate (ctx : LoadContext) : Nat → Frontier → Stage H → PassResult H
  | steps, f, s =>
    match f.next? s.graph with
    | none => { stage := s, remaining := steps, truncated := false }
    | some (value, target, f) =>
      match steps with
      | 0 => { stage := s, remaining := 0, truncated := true }
      | steps + 1 =>
        let (s, changed) := s.deliver ctx value target
        propagate ctx steps (f.enqueue changed) s

end Stage

/-- A running graph and its statistics. -/
structure Runner where
  graph : Graph
  /-- The links followed in the last pass. -/
  lastSteps : Nat := 0
  /-- The passes cut short since the load. -/
  truncatedPasses : Nat := 0
  deriving Inhabited

namespace Runner

/-- A whole pass that starts from changed ports. -/
def pass (ctx : LoadContext) (r : Runner) (s : Stage H) (changed : List PortRef) :
    Runner × World H :=
  let limit := ctx.settings.maxSteps
  let result := s.propagate ctx limit (.ofSources changed)
  ({ graph := result.stage.graph
     lastSteps := limit - result.remaining
     truncatedPasses := if result.truncated then r.truncatedPasses + 1 else r.truncatedPasses },
    result.stage.world)

/-- Evaluates a node and passes on what has changed. -/
def evaluate (ctx : LoadContext) (r : Runner) (w : World H) (i : Nat) (trigger : Trigger) :
    Runner × World H :=
  let (s, changed) := Stage.evaluate ctx { graph := r.graph, world := w } i trigger
  r.pass ctx s changed

/-- Gives a value of its signal to an input bridge. A value whose cast is the same as before starts
no pass. -/
def inject (ctx : LoadContext) (r : Runner) (w : World H) (i : Nat) (value : Value) :
    Runner × World H :=
  match r.graph.nodes[i]? with
  | none => (r, w)
  | some node =>
    match node.enabled, node.behavior.inputBridge? with
    | true, some bridge =>
      let cast := bridge.cast.apply value
      if (node.ports.outputAt 0).same cast then ({ r with lastSteps := 0 }, w)
      else
        let node' := { node with ports := node.ports.setOutputAt 0 cast }
        let graph := { r.graph with nodes := r.graph.nodes.setIfInBounds i node' }
        r.pass ctx { graph := graph, world := w } [⟨i, 0⟩]
    | _, _ => (r, w)

/-- Evaluates one node after a load, unless it is disabled or an input bridge. -/
def primeNode (ctx : LoadContext) (state : Runner × World H) (i : Nat) : Runner × World H :=
  let (r, w) := state
  match r.graph.nodes[i]? with
  | none => (r, w)
  | some node =>
    if node.enabled && node.behavior.inputBridge?.isNone then r.evaluate ctx w i .inputs else (r, w)

/-- Evaluates all nodes after a load, in the order of their declaration. -/
def prime (ctx : LoadContext) (r : Runner) (w : World H) : Runner × World H :=
  (List.range r.graph.nodes.size).foldl (primeNode ctx) (r, w)

/-- Delivers a fire to its node, if the node still has that very timer. -/
def onTimer (ctx : LoadContext) (r : Runner) (w : World H) (fire : Fire) : Runner × World H :=
  match r.graph.indexOf? fire.node with
  | none => (r, w)
  | some i =>
    match r.graph.nodes[i]? with
    | none => (r, w)
    | some node =>
      match node.timers.takeFired? fire.key fire.token with
      | none => (r, w)
      | some timers =>
        let nodes := r.graph.nodes.setIfInBounds i { node with timers := timers }
        let r := { r with graph := { r.graph with nodes := nodes } }
        if node.enabled then r.evaluate ctx w i (.timer fire.key) else (r, w)

end Runner

end SignalGraph
