import SignalGraph.Engine.Propagation
import SignalGraph.Proofs.Graph.Evolution
import SignalGraph.Proofs.Value.Same

/-!
# The outcomes of an evaluation

An evaluation either leaves everything as it was or replaces one node by the node after its
reaction, whose commands have been carried out (`Stage.evaluate_outcome`). Following a link either
changes nothing, or stores a value at an input and evaluates the node (`Stage.deliver_outcome`). All
that later proofs need to know about the two functions is in these two statements. What they say
about the ports and the nodes comes right after them: an output that is not named as changed is as
it was (`outputAt_same`), only the target of a link takes a new value (`inputAt_target`,
`inputAt_ne`), and nodes change by `Node.Work` alone (`along`). Of the commands, only the trigger of
a scene has several outcomes (`World.trigger_outcome`).
-/

namespace SignalGraph

/-! ### Commands and timers -/

namespace World

variable {H : Type} (w : World H) (timers : ArmedTimers)

theorem disarm_fst (key : TimerKey) : (w.disarm timers key).1 = timers.remove key := by
  unfold disarm
  split
  · rfl
  · next hnone =>
    refine (List.eraseP_of_forall_not fun t ht => ?_).symm
    exact List.find?_eq_none.1 hnone t ht

/-- Arming takes a timer under the same key away and adds the new one. -/
theorem arm_fst (generation : Nat) (graph node : String) (key : TimerKey) (delay : Nat) :
    ∃ timer : ArmedTimer, timer.key = key ∧
      (w.arm generation graph node timers key delay).1 = timers.remove key ++ [timer] := by
  unfold arm
  rw [← disarm_fst w timers key]
  exact ⟨_, rfl, rfl⟩

theorem host_cancelTimer (timer : ArmedTimer) : (w.cancelTimer timer).host = w.host := by
  unfold cancelTimer withTimeline
  split
  · cases w.service <;> rfl
  · rfl

theorem host_disarm (key : TimerKey) : (w.disarm timers key).2.host = w.host := by
  unfold disarm
  split
  · exact host_cancelTimer w _
  · rfl

/-- The host does not know about timers. -/
theorem host_arm (generation : Nat) (graph node : String) (key : TimerKey) (delay : Nat) :
    (w.arm generation graph node timers key delay).2.host = w.host := by
  have hschedule : ∀ (w : World H) (fire : Fire), (w.schedule delay fire).2.host = w.host := by
    intro w fire
    unfold schedule withTimeline
    cases w.service <;> rfl
  unfold arm
  exact (hschedule _ _).trans (host_disarm w timers key)

variable [Host H]

/-- What can become of the trigger of a scene. -/
inductive TriggerOutcome (ctx : LoadContext) (graph node : String) (scene fallback : Option String)
    (payload : Value) (ack : Bool) (pulse : Nat) : ArmedTimers × World H → Prop
  /-- There is no signal for the scene. -/
  | unresolved {w' : World H} (htarget : w.sceneTarget ctx.scenes scene fallback = (none, w')) :
    TriggerOutcome ctx graph node scene fallback payload ack pulse (timers, w')
  /-- The payload is written, for good. -/
  | written {signal : String} {w' : World H}
    (htarget : w.sceneTarget ctx.scenes scene fallback = (some signal, w')) (hpulse : pulse = 0) :
    TriggerOutcome ctx graph node scene fallback payload ack pulse
      (timers, w'.write signal payload ack)
  /-- The payload is written, and the timer of the reset is armed. -/
  | armed {signal : String} {w' : World H}
    (htarget : w.sceneTarget ctx.scenes scene fallback = (some signal, w')) (hpulse : pulse ≠ 0) :
    TriggerOutcome ctx graph node scene fallback payload ack pulse
      ((w'.write signal payload ack).arm ctx.generation graph node timers (.pulse signal) pulse)

theorem trigger_outcome (ctx : LoadContext) (graph node : String) (scene fallback : Option String)
    (payload : Value) (ack : Bool) (pulse : Nat) :
    w.TriggerOutcome timers ctx graph node scene fallback payload ack pulse
      (carryOut ctx graph node (timers, w) (.trigger scene fallback payload ack pulse)) := by
  unfold carryOut
  dsimp only
  split
  · next w' htarget => exact .unresolved htarget
  · next signal w' htarget =>
    split
    · next hpulse => exact .written htarget hpulse
    · next hpulse => exact .armed htarget hpulse

theorem changes_carryOut (ctx : LoadContext) (graph node : String) (command : Command) :
    timers.Changes (carryOut ctx graph node (timers, w) command).1 := by
  have armed : ∀ (w : World H) (key : TimerKey) (delay : Nat),
      timers.Changes (w.arm ctx.generation graph node timers key delay).1 := by
    intro w key delay
    obtain ⟨timer, rfl, heq⟩ := arm_fst w timers ctx.generation graph node key delay
    rw [heq]
    exact .put timer .refl
  cases command with
  | arm key delay => exact armed w key delay
  | cancel key =>
    show timers.Changes (w.disarm timers key).1
    rw [disarm_fst]
    exact .remove key .refl
  | write signal value ack => exact .refl
  | trigger scene fallback payload ack pulse =>
    have houtcome := w.trigger_outcome timers ctx graph node scene fallback payload ack pulse
    generalize carryOut ctx graph node (timers, w) _ = o at houtcome ⊢
    cases houtcome with
    | unresolved | written => exact .refl
    | armed => exact armed _ _ _

theorem changes_commands (ctx : LoadContext) (graph node : String) (commands : List Command) :
    timers.Changes (commands.foldl (carryOut ctx graph node) (timers, w)).1 := by
  induction commands generalizing timers w with
  | nil => exact .refl
  | cons command rest ih => exact (changes_carryOut w timers ctx graph node command).trans (ih _ _)

end World

/-! ### Evaluations -/

namespace Stage

variable {H : Type} [Host H] (ctx : LoadContext) (s : Stage H) (i : Nat)

/-- What the commands of a reaction of node `n` do. -/
def obey (n : Node) (r : Reaction Behavior) : ArmedTimers × World H :=
  r.commands.foldl (World.carryOut ctx s.graph.id n.id) (n.timers, s.world)

/-- The stage after a reaction of node `i`, which is `n`. -/
def react (n : Node) (r : Reaction Behavior) : Stage H :=
  { graph := s.graph.replace i (n.after r (s.obey ctx n r).1), world := (s.obey ctx n r).2 }

/-- The outputs of node `i`, which is `n`, that a reaction changes. -/
def changed (n : Node) (r : Reaction Behavior) : List PortRef :=
  (Ports.changedSince { n.ports with outputs := r.outputs } n.ports.outputs).map fun port =>
    ⟨i, port⟩

/-- The ways an evaluation of node `i` can end. -/
inductive EvaluateOutcome (trigger : Trigger) : Stage H × List PortRef → Prop
  | missing (hn : s.graph.nodes[i]? = none) : EvaluateOutcome trigger (s, [])
  | failed {n : Node} {e : EvalError} (hn : s.graph.nodes[i]? = some n)
    (hreact : n.behavior.react (n.view trigger (s.world.reading ctx.settings)) = .error e) :
    EvaluateOutcome trigger (s, [])
  | reacted {n : Node} {r : Reaction Behavior} (hn : s.graph.nodes[i]? = some n)
    (hreact : n.behavior.react (n.view trigger (s.world.reading ctx.settings)) = .ok r) :
    EvaluateOutcome trigger (s.react ctx i n r, changed i n r)

theorem evaluate_eq (trigger : Trigger) {n : Node} (hn : s.graph.nodes[i]? = some n) :
    s.evaluate ctx i trigger =
      match n.behavior.react (n.view trigger (s.world.reading ctx.settings)) with
      | .error _ => (s, [])
      | .ok r => (s.react ctx i n r, changed i n r) := by
  unfold evaluate
  rw [hn]
  rfl

theorem evaluate_outcome (trigger : Trigger) :
    s.EvaluateOutcome ctx i trigger (s.evaluate ctx i trigger) := by
  cases hn : s.graph.nodes[i]? with
  | none =>
    rw [evaluate, hn]
    exact .missing hn
  | some n =>
    rw [evaluate_eq ctx s i trigger hn]
    split
    · next e hreact => exact .failed hn hreact
    · next r hreact => exact .reacted hn hreact

theorem deliver_eq {ctx : LoadContext} {s : Stage H} {value : Value} {target : PortRef} {n : Node}
    (hn : s.graph.nodes[target.node]? = some n) :
    s.deliver ctx value target =
      if (n.ports.inputAt target.port).same value then (s, [])
      else if n.enabled then
        evaluate ctx { s with graph := s.graph.replace target.node (n.receive target.port value) }
          target.node .inputs
      else ({ s with graph := s.graph.replace target.node (n.receive target.port value) }, []) := by
  unfold deliver
  rw [hn]
  rfl

/-- The ways following a link to `target` can end. -/
inductive DeliverOutcome (value : Value) (target : PortRef) : Stage H × List PortRef → Prop
  | missing (hn : s.graph.nodes[target.node]? = none) : DeliverOutcome value target (s, [])
  | unchanged {n : Node} (hn : s.graph.nodes[target.node]? = some n)
    (hsame : (n.ports.inputAt target.port).same value = true) : DeliverOutcome value target (s, [])
  | stored {n : Node} (hn : s.graph.nodes[target.node]? = some n)
    (hsame : (n.ports.inputAt target.port).same value = false) (hdisabled : n.enabled = false) :
    DeliverOutcome value target
      ({ s with graph := s.graph.replace target.node (n.receive target.port value) }, [])
  | failed {n : Node} {e : EvalError} (hn : s.graph.nodes[target.node]? = some n)
    (hsame : (n.ports.inputAt target.port).same value = false) (henabled : n.enabled = true)
    (hreact : n.behavior.react ((n.receive target.port value).view .inputs
      (s.world.reading ctx.settings)) = .error e) :
    DeliverOutcome value target
      ({ s with graph := s.graph.replace target.node (n.receive target.port value) }, [])
  | reacted {n : Node} {r : Reaction Behavior} (hn : s.graph.nodes[target.node]? = some n)
    (hsame : (n.ports.inputAt target.port).same value = false) (henabled : n.enabled = true)
    (hreact : n.behavior.react ((n.receive target.port value).view .inputs
      (s.world.reading ctx.settings)) = .ok r) :
    DeliverOutcome value target
      (s.react ctx target.node (n.receive target.port value) r, changed target.node n r)

theorem deliver_outcome (value : Value) (target : PortRef) :
    s.DeliverOutcome ctx value target (s.deliver ctx value target) := by
  unfold deliver
  split
  · next hn => exact .missing hn
  · next n hn =>
    split
    · next hsame => exact .unchanged hn hsame
    · next hsame =>
      rw [Bool.not_eq_true] at hsame
      dsimp only
      split
      · next henabled =>
        have hn' := Graph.getElem?_replace_self (n := n.receive target.port value) hn
        show s.DeliverOutcome ctx value target (evaluate ctx
          { s with graph := s.graph.replace target.node (n.receive target.port value) } _ _)
        rw [evaluate_eq ctx _ _ _ hn']
        split
        · next e hreact => exact .failed hn hsame henabled hreact
        · next r hreact =>
          -- storing the input and reacting replace the same node, so once is enough
          have hreacted : s.DeliverOutcome ctx value target _ := .reacted hn hsame henabled hreact
          rw [react] at hreacted ⊢
          rwa [Graph.replace_replace]
      · next hdisabled => exact .stored hn hsame (by simpa using hdisabled)

/-! ### What becomes of ports and nodes -/

/-- Every output that a reaction does not change is the same as before. -/
theorem same_of_notMem_changed {n : Node} {r : Reaction Behavior}
    (hlength : r.outputs.length = n.ports.outputs.length) {port : Nat}
    (h : ⟨i, port⟩ ∉ changed i n r) :
    (r.outputs.getD port .null).same (n.ports.outputAt port) = true := by
  rw [Value.same_comm]
  by_cases hport : port < n.ports.outputs.length
  · by_contra hdiffers
    rw [Bool.not_eq_true] at hdiffers
    refine h (List.mem_map.2 ⟨port, ?_, rfl⟩)
    rw [Ports.changedSince, List.mem_filter]
    exact ⟨List.mem_range.2 hport, by rw [Bool.not_eq_true']; exact hdiffers⟩
  · -- a port that does not exist is `null` before and after
    have hnull : ∀ l : List Value, l.length ≤ port → l.getD port .null = .null := by
      intro l hl
      rw [List.getD_eq_getElem?_getD, List.getElem?_eq_none hl, Option.getD_none]
    rw [Ports.outputAt, hnull _ (by omega), hnull _ (by omega)]
    rfl

variable {s i}

/-- After a reaction of node `i`, outputs are as before unless they are named as changed. -/
theorem outputAt_react {n : Node} {r : Reaction Behavior} {v : View}
    (hn : s.graph.nodes[i]? = some n) (hfits : n.Fits) (hreact : n.behavior.react v = .ok r)
    (hv : v.ports.outputs = n.ports.outputs) {m : Node} (p : PortRef) :
    ((s.react ctx i m r).graph.outputAt p).same (s.graph.outputAt p) = true ∨
      p ∈ changed i n r := by
  by_cases hp : p ∈ changed i n r
  · exact .inr hp
  left
  by_cases hi : i = p.node
  · subst hi
    rw [react, Graph.outputAt_eq (Graph.getElem?_replace_self hn), Graph.outputAt_eq hn]
    refine same_of_notMem_changed p.node ?_ hp
    rw [hfits.outputs]
    exact (Behavior.kept_of_react hreact).length_eq (hv ▸ hfits.outputs)
  · rw [react, Graph.outputAt_replace_ne hi]
    exact Value.same_refl _

namespace EvaluateOutcome

variable {trigger : Trigger} {o : Stage H × List PortRef} {ctx}

/-- No input changes. -/
theorem inputAt_eq (h : s.EvaluateOutcome ctx i trigger o) (p : PortRef) :
    o.1.graph.inputAt p = s.graph.inputAt p := by
  cases h with
  | missing | failed => rfl
  | @reacted n r hn =>
    exact Graph.inputAt_replace (m := n.after r (s.obey ctx n r).1) hn rfl p

/-- An output is as before unless it is named as changed. -/
theorem outputAt_same (h : s.EvaluateOutcome ctx i trigger o) (hs : s.graph.Sound) (p : PortRef) :
    (o.1.graph.outputAt p).same (s.graph.outputAt p) = true ∨ p ∈ o.2 := by
  cases h with
  | missing | failed => exact .inl (Value.same_refl _)
  | reacted hn hreact => exact outputAt_react ctx hn (hs.fits i _ hn) hreact rfl p

theorem along (h : s.EvaluateOutcome ctx i trigger o)
    (henabled : ∀ n, s.graph.nodes[i]? = some n → n.enabled = true) :
    s.graph.Along Node.Work o.1.graph := by
  cases h with
  | missing | failed => exact .refl _
  | reacted hn hreact =>
    exact .replace hn (.evaluate (henabled _ hn) hreact (World.changes_commands _ _ _ _ _ _))

end EvaluateOutcome

namespace DeliverOutcome

variable {value : Value} {target : PortRef} {o : Stage H × List PortRef} {ctx}

/-- No input but the target changes. -/
theorem inputAt_ne (h : s.DeliverOutcome ctx value target o) {p : PortRef} (hp : p ≠ target) :
    o.1.graph.inputAt p = s.graph.inputAt p := by
  -- whatever the outcome, the new node has stored the value at the target and nowhere else
  have hstored : ∀ {n m : Node}, s.graph.nodes[target.node]? = some n →
      m.ports.inputs = n.ports.inputs.set target.port value →
      (s.graph.replace target.node m).inputAt p = s.graph.inputAt p := by
    intro n m hn hm
    by_cases hi : target.node = p.node
    · have hport : target.port ≠ p.port := by
        rintro hport
        exact hp (by cases p; cases target; simp_all)
      rw [hi] at hn ⊢
      rw [Graph.inputAt_eq (Graph.getElem?_replace_self hn), Graph.inputAt_eq hn, Ports.inputAt, hm,
        List.getD_eq_getElem?_getD, List.getElem?_set_ne hport, ← List.getD_eq_getElem?_getD]
      rfl
    · exact Graph.inputAt_replace_ne hi
  cases h with
  | missing | unchanged => rfl
  | stored hn | failed hn => exact hstored hn rfl
  | reacted hn => exact hstored hn rfl

/-- The target has taken the value. -/
theorem inputAt_target (h : s.DeliverOutcome ctx value target o) (ht : s.graph.HasInput target) :
    (o.1.graph.inputAt target).same value = true := by
  obtain ⟨n, hn, hport⟩ := ht
  have hstored : ∀ {m : Node}, m.ports.inputs = n.ports.inputs.set target.port value →
      ((s.graph.replace target.node m).inputAt target).same value = true := by
    intro m hm
    rw [Graph.inputAt_eq (Graph.getElem?_replace_self hn), Ports.inputAt, hm,
      List.getD_eq_getElem?_getD, List.getElem?_set_self hport, Option.getD_some]
    exact Value.same_refl _
  cases h with
  | missing hn' => cases hn'.symm.trans hn
  | unchanged hn' hsame =>
    rw [Graph.inputAt_eq hn']
    exact hsame
  | stored hn' | failed hn' | reacted hn' =>
    cases hn'.symm.trans hn
    exact hstored rfl

/-- An output is as before unless it is named as changed. -/
theorem outputAt_same (h : s.DeliverOutcome ctx value target o) (hs : s.graph.Sound)
    (p : PortRef) : (o.1.graph.outputAt p).same (s.graph.outputAt p) = true ∨ p ∈ o.2 := by
  cases h with
  | missing | unchanged => exact .inl (Value.same_refl _)
  | @stored n hn | @failed n _ hn =>
    left
    have hkept := Graph.outputAt_replace (m := n.receive target.port value) hn rfl p
    dsimp only
    rw [hkept]
    exact Value.same_refl _
  | reacted hn _ _ hreact => exact outputAt_react ctx hn (hs.fits _ _ hn) hreact rfl p

theorem along (h : s.DeliverOutcome ctx value target o) : s.graph.Along Node.Work o.1.graph := by
  cases h with
  | missing | unchanged => exact .refl _
  | stored hn _ hdisabled => exact .replace hn (.store hdisabled)
  | failed hn _ henabled hreact => exact .replace hn (.fail henabled hreact)
  | reacted hn _ henabled hreact =>
    exact .replace hn (.deliver henabled hreact (World.changes_commands _ _ _ _ _ _))

end DeliverOutcome

end Stage

end SignalGraph
