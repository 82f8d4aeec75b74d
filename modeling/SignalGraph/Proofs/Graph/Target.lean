import SignalGraph.Proofs.Graph.Evolution

/-!
# What a node writes to

An output bridge writes to its signal and a scene trigger to the signal of its scene; no other node
writes. So an evaluation on the inputs asks for writes to the target of the node only
(`Behavior.target?_of_react`), and it never changes what the target is (`Graph.Along.target?_eq`).
-/

namespace SignalGraph

/-- The signal that is written to for a scene, given the signals of scenes. -/
def sceneSignal? (scenes : String → Option String) (scene fallback : Option String) :
    Option String :=
  scene.bind scenes <|> fallback

/-- The signal that a command writes to. -/
def Command.target? (scenes : String → Option String) : Command → Option String
  | .write signal _ _ => some signal
  | .trigger scene fallback _ _ _ => sceneSignal? scenes scene fallback
  | .arm _ _ | .cancel _ => none

namespace Behavior

/-- The signal that a node with this behaviour writes to. -/
def target? (scenes : String → Option String) : Behavior → Option String
  | .outputBridge b => some b.signal
  | .sceneTrigger s => sceneSignal? scenes s.scene s.fallback
  | _ => none

variable {scenes : String → Option String}

theorem target?_parameters (b : Behavior) : b.parameters.target? scenes = b.target? scenes := by
  cases b <;> rfl

/-- A node that is evaluated on its inputs writes to its target only. -/
theorem target?_of_react {b : Behavior} {v : View} {r : Reaction Behavior}
    (h : b.react v = .ok r) (hinputs : v.trigger = .inputs) {command : Command}
    (hcommand : command ∈ r.commands) {signal : String}
    (hsignal : command.target? scenes = some signal) : b.target? scenes = some signal := by
  obtain ⟨trigger, ports, timers, reading⟩ := v
  obtain rfl : trigger = .inputs := hinputs
  cases b with
  | outputBridge b =>
    cases h
    dsimp only [Reaction.map, OutputBridge.react, OutputBridge.onInputs] at hcommand
    repeat' split at hcommand
    all_goals first
      | exact (List.not_mem_nil hcommand).elim
      | rw [List.mem_singleton.1 hcommand] at hsignal; cases hsignal
      | -- the write is due: what waits for it is cancelled first
        rcases List.mem_cons.1 hcommand with rfl | hwrite
        · cases hsignal
        · rw [List.mem_singleton.1 hwrite] at hsignal
          exact hsignal
  | sceneTrigger s =>
    cases h
    dsimp only [Reaction.map, SceneTrigger.react, SceneTrigger.onInputs] at hcommand
    split at hcommand
    · rw [List.mem_singleton.1 hcommand] at hsignal
      exact hsignal
    · cases hcommand
  | operation o =>
    obtain ⟨value, -, rfl⟩ := exists_of_map_eq_ok h
    cases hcommand
  | scale s =>
    simp only [react] at h
    split at h <;> cases h <;> cases hcommand
  | const _ | invert | gate _ | comparison _ | clamp _ | inputBridge _ =>
    cases h
    cases hcommand
  | _ =>
    -- all other nodes only ask for timers
    cases h
    dsimp only [Reaction.map, Reaction.out, Reaction.keep, EdgeDetector.react,
      EdgeDetector.onInputs,
      Toggle.react, SetReset.react, DelayOn.react, DelayOff.react, Pulse.react, Staircase.react,
      WeeklySchedule.react, ImpulseCounter.react, Counter.react, HourMeter.react] at hcommand
    repeat' split at hcommand
    all_goals first
      | exact (List.not_mem_nil hcommand).elim
      | rw [List.mem_singleton.1 hcommand] at hsignal; cases hsignal

end Behavior

/-! ### Nodes and graphs -/

/-- The signal that the node writes to, if it is enabled. -/
def Node.target? (scenes : String → Option String) (n : Node) : Option String :=
  if n.enabled then n.behavior.target? scenes else none

/-- The signal that node `i` writes to, if it is enabled. -/
def Graph.target? (scenes : String → Option String) (g : Graph) (i : Nat) : Option String :=
  g.nodes[i]?.bind (Node.target? scenes)

/-- The target of a node is a matter of its plan. -/
theorem Node.target?_of_plan {scenes : String → Option String} {n n' : Node}
    (h : n'.plan = n.plan) : n'.target? scenes = n.target? scenes := by
  have henabled : n'.enabled = n.enabled := congrArg Plan.enabled h
  have hparameters : n'.behavior.parameters = n.behavior.parameters := congrArg Plan.parameters h
  rw [target?, target?, henabled, ← Behavior.target?_parameters, hparameters,
    Behavior.target?_parameters]

/-- Nodes that change keep their targets. -/
theorem Graph.Along.target?_eq {scenes : String → Option String} {g g' : Graph}
    (h : g.Along Node.Step g') (i : Nat) : g'.target? scenes i = g.target? scenes i := by
  unfold Graph.target?
  cases hn : g.nodes[i]? with
  | none =>
    have hsize := Array.getElem?_eq_none_iff.1 hn
    rw [Array.getElem?_eq_none_iff.2 (h.size_eq ▸ hsize)]
  | some n =>
    obtain ⟨n', hn', -⟩ := h.exists_node hn
    rw [hn', Option.bind_some, Option.bind_some]
    exact Node.target?_of_plan (h.plan_eq hn hn')

end SignalGraph
