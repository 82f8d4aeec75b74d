import SignalGraph.Engine.World
import SignalGraph.Graph.Basic

/-!
# Evaluating nodes

A node is evaluated on its ports, its timers and the time; its commands are carried out right
after. An evaluation that fails changes nothing. The result names the outputs that have changed.
-/

namespace SignalGraph

/-- What stays fixed from one load to the next. -/
structure LoadContext where
  /-- The number of the load. -/
  generation : Nat
  settings : Settings
  /-- The signals of scenes that the host does not know. -/
  scenes : Dictionary String

/-- A graph at work. -/
structure Stage (H : Type) where
  graph : Graph
  world : World H

variable {H : Type} [Host H]

/-- The signal of a scene: the host is asked first, the configuration second, and the fallback comes
last. Without a scene nobody is asked. -/
def World.sceneTarget (w : World H) (scenes : Dictionary String) (scene fallback : Option String) :
    Option String × World H :=
  match scene with
  | none => (fallback, w)
  | some scene =>
    let (answer, w) := w.resolve scene
    ((answer <|> scenes.find? scene) <|> fallback, w)

/-- Carries out a command of a node, given its graph's id, its id and its timers. -/
def World.carryOut (ctx : LoadContext) (graph node : String) :
    ArmedTimers × World H → Command → ArmedTimers × World H
  | (timers, w), .arm key delay => w.arm ctx.generation graph node timers key delay
  | (timers, w), .cancel key => w.disarm timers key
  | (timers, w), .write signal value ack => (timers, w.write signal value ack)
  | (timers, w), .trigger scene fallback payload ack pulse =>
    match w.sceneTarget ctx.scenes scene fallback with
    | (none, w) => (timers, w)
    | (some signal, w) =>
      let w := w.write signal payload ack
      if pulse = 0 then (timers, w)
      else w.arm ctx.generation graph node timers (.pulse signal) pulse

namespace Stage

/-- Evaluates the node with number `i` and gives the changed outputs. -/
def evaluate (ctx : LoadContext) (s : Stage H) (i : Nat) (trigger : Trigger) :
    Stage H × List PortRef :=
  match s.graph.nodes[i]? with
  | none => (s, [])
  | some node =>
    let view : View :=
      { trigger := trigger, ports := node.ports, timers := node.timers
        reading := s.world.reading ctx.settings }
    match node.behavior.react view with
    | .error _ => (s, [])
    | .ok reaction =>
      let (timers, world) :=
        reaction.commands.foldl (World.carryOut ctx s.graph.id node.id) (node.timers, s.world)
      let ports := { node.ports with outputs := reaction.outputs }
      let node' := { node with behavior := reaction.state, ports := ports, timers := timers }
      ({ graph := { s.graph with nodes := s.graph.nodes.setIfInBounds i node' }, world := world },
        (ports.changedSince node.ports.outputs).map fun port => ⟨i, port⟩)

end Stage

end SignalGraph
