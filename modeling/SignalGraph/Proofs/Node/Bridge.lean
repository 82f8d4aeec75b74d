import SignalGraph.Proofs.Node.Step
import SignalGraph.Proofs.Value.Same

/-!
# What an input bridge shows

An input bridge shows the cast of the last value that it was given (`Node.Shows`). It starts to when
it is given the value (`Shows.showing`), and no work of the node makes it stop (`Shows.work`).
-/

namespace SignalGraph

/-- What an input bridge shows after the last value of its signal. -/
def InputBridge.shown (b : InputBridge) (last : Option Value) : Value :=
  match last with
  | some value => b.cast.apply value
  | none => .null

/-- A bridge that is evaluated keeps its output. -/
theorem Behavior.outputs_of_inputBridge? {b : Behavior} {v : View} {r : Reaction Behavior}
    {bridge : InputBridge} (hbridge : b.inputBridge? = some bridge) (hreact : b.react v = .ok r) :
    r.outputs = v.ports.outputs := by
  cases b with
  | inputBridge =>
    cases hreact
    rfl
  | _ => cases hbridge

theorem Behavior.outputCount_of_inputBridge? {b : Behavior} {bridge : InputBridge}
    (hbridge : b.inputBridge? = some bridge) : b.outputCount = 1 := by
  cases b with
  | inputBridge => rfl
  | _ => cases hbridge

/-- The signal that the node shows, if it is an enabled input bridge. -/
def Node.signal? (n : Node) : Option String :=
  if n.enabled then n.behavior.inputBridge?.map InputBridge.signal else none

theorem Node.signal?_eq_some {n : Node} {b : InputBridge} (henabled : n.enabled = true)
    (hbridge : n.behavior.inputBridge? = some b) : n.signal? = some b.signal := by
  rw [signal?, if_pos henabled, hbridge, Option.map_some]

/-- The signal that node `i` shows, if it is an enabled input bridge. -/
def Graph.signal? (g : Graph) (i : Nat) : Option String :=
  g.nodes[i]?.bind Node.signal?

/-- If the node is an enabled input bridge, it shows `last`. -/
structure Node.Shows (last : Option Value) (n : Node) : Prop where
  fits : n.Fits
  output : ∀ b, n.enabled = true → n.behavior.inputBridge? = some b →
    (n.ports.outputAt 0).same (b.shown last) = true

namespace Node

variable {n n' : Node} {last : Option Value}

theorem Shows.work (h : n.Shows last) (hwork : n.Work n') : n'.Shows last := by
  refine ⟨(Step.work hwork).fits h.fits, ?_⟩
  -- a reaction keeps both the bridge and what it shows
  have hafter : ∀ {m : Node} {v : View} {r : Reaction Behavior},
      n.behavior.react v = .ok r → v.ports.outputs = n.ports.outputs →
      m.ports.outputs = r.outputs → m.behavior = r.state → n.enabled = true →
      ∀ b, m.behavior.inputBridge? = some b → (m.ports.outputAt 0).same (b.shown last) = true := by
    intro m v r hreact hv houtputs hstate henabled b hb
    rw [hstate, Behavior.inputBridge?_state hreact] at hb
    have hkept := Behavior.outputs_of_inputBridge? hb hreact
    rw [Ports.outputAt, houtputs, hkept, hv]
    exact h.output b henabled hb
  cases hwork with
  | @evaluate _ _ r timers henabled hreact =>
    intro b _ hb
    exact hafter (m := n.after r timers) hreact rfl rfl rfl henabled b hb
  | @deliver port value _ r timers henabled hreact =>
    intro b _ hb
    exact hafter (m := (n.receive port value).after r timers) hreact rfl rfl rfl henabled b hb
  | fail => exact h.output
  | store => exact h.output
  | release => exact h.output

/-- A bridge that has been given a value shows it. -/
theorem Shows.showing {b : InputBridge} {value : Value} (h : n.Shows last)
    (hbridge : n.behavior.inputBridge? = some b) (henabled : n.enabled = true) :
    (n.showing (b.cast.apply value)).Shows (some value) := by
  refine ⟨(Step.inject henabled hbridge).fits h.fits, ?_⟩
  intro b' _ hb'
  obtain rfl : b = b' := Option.some.inj (hbridge.symm.trans hb')
  have hport : 0 < n.ports.outputs.length := by
    rw [h.fits.outputs, Behavior.outputCount_of_inputBridge? hbridge]
    exact Nat.one_pos
  rw [Node.showing, Ports.setOutputAt, Ports.outputAt, List.getD_eq_getElem?_getD,
    List.getElem?_set_self hport, Option.getD_some]
  exact Value.same_refl _

end Node

end SignalGraph
