import SignalGraph.Host.Memory
import SignalGraph.Proofs.Engine.Pass
import SignalGraph.Proofs.Graph.Target
import SignalGraph.Proofs.Host.Logged

/-!
# Graphs that spare signals

A graph spares certain signals if none of its nodes writes to them (`Graph.Spares`). On a host in
memory, whose calls are spelled out first, such a graph leaves the values of these signals alone
while it is evaluated on its inputs: when it receives a value (`Runner.inject_agrees`) and when it
is primed (`Runner.prime_agrees`).
-/

namespace SignalGraph

/-! ### A host in memory with a log -/

namespace World

variable (w : World (Logged MemoryHost)) (signal : String)

theorem resolve_inMemory (scene : String) :
    w.resolve scene = (w.host.host.resolve? scene,
      { w with
        host :=
          { w.host with
            log := w.host.log ++ [⟨.resolve scene (w.host.host.resolve? scene), false, []⟩] } }) :=
  rfl

theorem write_inMemory (value : Value) (ack : Bool) :
    w.write signal value ack =
      { w with
        host :=
          { host :=
              if w.host.host.readOnly.contains signal then w.host.host
              else
                { w.host.host.setValue signal value with
                  written := ⟨signal, value, ack⟩ :: w.host.host.written }
            log := w.host.log ++
              [⟨.write signal value ack !w.host.host.readOnly.contains signal,
                w.host.host.readOnly.contains signal, []⟩] } } := by
  -- the reply of the host first, so that the outer match sees a constructor in both cases
  have hreply : Host.write w.host.host signal value ack =
      if w.host.host.readOnly.contains signal then
        { host := w.host.host, answer := .error (.write signal "signal is read-only") }
      else
        { host :=
            { w.host.host.setValue signal value with
              written := ⟨signal, value, ack⟩ :: w.host.host.written }
          answer := .ok () } := by
    dsimp only [Host.write]
    unfold MemoryHost.write
    cases w.host.host.readOnly.contains signal <;> rfl
  show w.afterCall (w.host.pass (Host.write w.host.host signal value ack)
    (.write signal value ack (Host.write w.host.host signal value ack).answer.isOk)
    !(Host.write w.host.host signal value ack).answer.isOk) = _
  rw [hreply]
  cases w.host.host.readOnly.contains signal <;> rfl

end World

/-- The signals of scenes: the host is asked first, the configuration second. -/
def MemoryHost.sceneSignals (h : MemoryHost) (scenes : Dictionary String) (scene : String) :
    Option String :=
  h.resolve? scene <|> scenes.find? scene

theorem MemoryHost.sceneSignals_congr {h h' : MemoryHost} (hdevices : h'.devices = h.devices)
    (scenes : Dictionary String) : h'.sceneSignals scenes = h.sceneSignals scenes := by
  funext scene
  rw [sceneSignals, resolve?, hdevices]
  rfl

/-- The host of a world knows the same scenes as `h`, and has the same values for these signals. -/
structure World.Agrees (h : MemoryHost) (signals : String → Prop) (w : World (Logged MemoryHost)) :
    Prop where
  devices_eq : w.host.host.devices = h.devices
  value?_eq : ∀ signal, signals signal → w.host.host.value? signal = h.value? signal

/-- No enabled node of the graph writes to one of these signals. -/
def Graph.Spares (g : Graph) (scenes : String → Option String) (signals : String → Prop) : Prop :=
  ∀ i signal, g.target? scenes i = some signal → ¬ signals signal

theorem Graph.Spares.along {g g' : Graph} {scenes : String → Option String}
    {signals : String → Prop} (h : g.Spares scenes signals) (halong : g.Along Node.Step g') :
    g'.Spares scenes signals := by
  intro i signal htarget
  rw [halong.target?_eq] at htarget
  exact h i signal htarget

variable {h : MemoryHost} {signals : String → Prop} {ctx : LoadContext}

/-! ### Commands -/

namespace World

variable {w : World (Logged MemoryHost)} {graph node : String} {timers : ArmedTimers}

namespace Agrees

theorem write {signal : String} (hw : w.Agrees h signals) (hsignal : ¬ signals signal)
    (value : Value) (ack : Bool) : (w.write signal value ack).Agrees h signals := by
  rw [write_inMemory]
  split
  · exact ⟨hw.devices_eq, hw.value?_eq⟩
  · refine ⟨hw.devices_eq, fun other hother => ?_⟩
    have hne : signal ≠ other := fun heq => hsignal (heq ▸ hother)
    rw [← hw.value?_eq other hother]
    show Dictionary.find? other (w.host.host.values.insert signal value) = _
    rw [Dictionary.find?_insert, if_neg hne]
    rfl

theorem sceneTarget (hw : w.Agrees h signals) (scenes : Dictionary String)
    (scene fallback : Option String) :
    (w.sceneTarget scenes scene fallback).1 = sceneSignal? (h.sceneSignals scenes) scene fallback ∧
      (w.sceneTarget scenes scene fallback).2.Agrees h signals := by
  unfold World.sceneTarget
  cases scene with
  | none => exact ⟨rfl, hw⟩
  | some scene =>
    dsimp only
    rw [resolve_inMemory]
    refine ⟨?_, hw.devices_eq, hw.value?_eq⟩
    have hanswer : w.host.host.resolve? scene = h.resolve? scene := by
      rw [MemoryHost.resolve?, hw.devices_eq]
      rfl
    rw [hanswer]
    rfl

/-- A command that does not write to these signals. -/
theorem carryOut {command : Command} (hw : w.Agrees h signals)
    (hcommand : ∀ signal, command.target? (h.sceneSignals ctx.scenes) = some signal →
      ¬ signals signal) :
    (World.carryOut ctx graph node (timers, w) command).2.Agrees h signals := by
  have hhost : ∀ {w w' : World (Logged MemoryHost)}, w'.host = w.host → w.Agrees h signals →
      w'.Agrees h signals := by
    intro w w' heq hw
    exact ⟨heq ▸ hw.devices_eq, heq ▸ hw.value?_eq⟩
  cases command with
  | arm key delay => exact hhost (host_arm w _ _ _ _ _ _) hw
  | cancel key => exact hhost (host_disarm w _ _) hw
  | write signal value ack => exact hw.write (hcommand signal rfl) value ack
  | trigger scene fallback payload ack pulse =>
    obtain ⟨hfirst, hfound⟩ := hw.sceneTarget ctx.scenes scene fallback
    have houtcome := w.trigger_outcome timers ctx graph node scene fallback payload ack pulse
    generalize World.carryOut ctx graph node (timers, w) _ = o at houtcome ⊢
    cases houtcome with
    | unresolved htarget =>
      rw [htarget] at hfound
      exact hfound
    | @written signal w' htarget =>
      rw [htarget] at hfirst hfound
      exact hfound.write (hcommand signal hfirst.symm) payload ack
    | @armed signal w' htarget =>
      rw [htarget] at hfirst hfound
      exact hhost (host_arm _ _ _ _ _ _ _) (hfound.write (hcommand signal hfirst.symm) payload ack)

theorem commands {commands : List Command} (hw : w.Agrees h signals)
    (hcommands : ∀ command ∈ commands, ∀ signal,
      command.target? (h.sceneSignals ctx.scenes) = some signal → ¬ signals signal) :
    (commands.foldl (World.carryOut ctx graph node) (timers, w)).2.Agrees h signals := by
  induction commands generalizing timers w with
  | nil => exact hw
  | cons command rest ih =>
    exact ih (hw.carryOut (hcommands command List.mem_cons_self))
      fun command hcommand => hcommands command (List.mem_cons_of_mem _ hcommand)

end Agrees

end World

/-! ### Evaluations on the inputs -/

namespace Stage

variable {s : Stage (Logged MemoryHost)} {i : Nat} {o : Stage (Logged MemoryHost) × List PortRef}

/-- A node that is evaluated on its inputs writes to its target only. -/
theorem react_agrees {n m : Node} {r : Reaction Behavior} {v : View}
    (hs : s.graph.Spares (h.sceneSignals ctx.scenes) signals) (hw : s.world.Agrees h signals)
    (hn : s.graph.nodes[i]? = some n) (henabled : n.enabled = true)
    (hreact : n.behavior.react v = .ok r) (hv : v.trigger = .inputs) :
    (s.react ctx i m r).world.Agrees h signals := by
  refine hw.commands fun command hcommand signal hsignal => hs i signal ?_
  rw [Graph.target?, hn, Option.bind_some, Node.target?, if_pos henabled]
  exact Behavior.target?_of_react hreact hv hcommand hsignal

theorem evaluate_agrees (ho : s.EvaluateOutcome ctx i .inputs o)
    (henabled : ∀ n, s.graph.nodes[i]? = some n → n.enabled = true)
    (hs : s.graph.Spares (h.sceneSignals ctx.scenes) signals) (hw : s.world.Agrees h signals) :
    o.1.world.Agrees h signals := by
  cases ho with
  | missing | failed => exact hw
  | reacted hn hreact => exact react_agrees hs hw hn (henabled _ hn) hreact rfl

theorem deliver_agrees {value : Value} {target : PortRef} (ho : s.DeliverOutcome ctx value target o)
    (hs : s.graph.Spares (h.sceneSignals ctx.scenes) signals) (hw : s.world.Agrees h signals) :
    o.1.world.Agrees h signals := by
  cases ho with
  | missing | unchanged | stored | failed => exact hw
  | reacted hn _ henabled hreact => exact react_agrees hs hw hn henabled hreact rfl

end Stage

namespace Runner

variable {r : Runner} {w : World (Logged MemoryHost)} {i : Nat}
  {o : Runner × World (Logged MemoryHost)}

theorem pass_agrees {s : Stage (Logged MemoryHost)} (changed : List PortRef)
    (hs : s.graph.Spares (h.sceneSignals ctx.scenes) signals) (hw : s.world.Agrees h signals) :
    (r.pass ctx s changed).2.Agrees h signals := by
  obtain ⟨-, ⟨-, hend⟩, -⟩ := pass_induct ctx
    (I := fun _ (t : Stage (Logged MemoryHost)) =>
      t.graph.Spares (h.sceneSignals ctx.scenes) signals ∧ t.world.Agrees h signals)
    (fun _ ht => ⟨ht.1.along (Stage.deliver_outcome ctx _ _ _).along.step,
      Stage.deliver_agrees (Stage.deliver_outcome ctx _ _ _) ht.1 ht.2⟩) r changed ⟨hs, hw⟩
  exact hend

theorem inject_agrees {value : Value} (ho : r.InjectOutcome ctx w i value o)
    (hs : r.graph.Spares (h.sceneSignals ctx.scenes) signals) (hw : w.Agrees h signals) :
    o.2.Agrees h signals := by
  cases ho with
  | ignored | unchanged => exact hw
  | shown hn henabled hbridge =>
    exact pass_agrees _ (hs.along (.replace hn (.inject henabled hbridge))) hw

theorem primeNode_agrees (ho : r.PrimeOutcome ctx w i o)
    (hs : r.graph.Spares (h.sceneSignals ctx.scenes) signals) (hw : w.Agrees h signals) :
    o.2.Agrees h signals := by
  cases ho with
  | skipped => exact hw
  | evaluated hn henabled =>
    have hall : ∀ m, r.graph.nodes[i]? = some m → m.enabled = true := by
      intro m hm
      cases hn.symm.trans hm
      exact henabled
    have houtcome := Stage.evaluate_outcome ctx ⟨r.graph, w⟩ i .inputs
    exact pass_agrees _ (hs.along (houtcome.along hall).step)
      (Stage.evaluate_agrees houtcome hall hs hw)

theorem prime_agrees (hs : r.graph.Spares (h.sceneSignals ctx.scenes) signals)
    (hw : w.Agrees h signals) : (r.prime ctx w).2.Agrees h signals := by
  let P (state : Runner × World (Logged MemoryHost)) : Prop :=
    state.1.graph.Spares (h.sceneSignals ctx.scenes) signals ∧ state.2.Agrees h signals
  have hnode : ∀ r w i, P (r, w) → P (primeNode ctx (r, w) i) := by
    intro r w i hstate
    have houtcome := primeNode_outcome ctx r w i
    exact ⟨hstate.1.along houtcome.along.step, primeNode_agrees houtcome hstate.1 hstate.2⟩
  exact (prime_induct hnode (show P (r, w) from ⟨hs, hw⟩)).2

end Runner

end SignalGraph
