import SignalGraph.Host.Memory
import SignalGraph.Proofs.Engine.Run
import SignalGraph.Proofs.Graph.Paths

/-!
# How far a pass goes

Every link that a pass follows stands for a path of links from one of the outputs at which the pass
starts, and no two of them stand for the same path. `Frontier.outlook` is the number of paths that
are left: each step takes one of them away (`Stage.outlook_deliver_lt`), as the outputs that it
changes only carry on paths that come through its link. So a graph without cycles settles if the
limit allows for all of its paths (`Engine.acyclic_settles`).
-/

namespace SignalGraph

/-! ### What is still to be followed -/

namespace Frontier

/-- The number of paths that a pass may still follow: those that begin with a link that is due, and
those that start at a port that waits. -/
noncomputable def outlook (f : Frontier) (g : Graph) : Nat :=
  (f.targets.map g.pathsThrough).sum + (f.waiting.map fun p => g.pathCount {p}).sum

variable {f f' : Frontier} {g g' : Graph} {value : Value} {target : PortRef}

/-- How much a pass may still have to do depends on the links alone. -/
theorem outlook_congr (h : g'.links = g.links) (f : Frontier) : f.outlook g' = f.outlook g := by
  unfold outlook
  rw [Graph.pathsThrough_congr h]
  simp only [Graph.pathCount_congr h]

/-- At the start, it is the number of paths from the changed ports. -/
theorem outlook_ofSources (ha : g.Acyclic) {changed : List PortRef} (hchanged : changed.Nodup) :
    (ofSources changed).outlook g = g.pathCount {p | p ∈ changed} := by
  rw [← Graph.sum_pathCount ha hchanged, outlook, ofSources, waiting]
  simp

/-- The link that is due takes the paths that begin with it from those that are left. -/
theorem Due.pathsThrough_add_outlook_le (ha : g.Acyclic) (h : f.Due g value target f') :
    g.pathsThrough target + f'.outlook g ≤ f.outlook g := by
  cases h with
  | @going _ targets htargets =>
    have hrest : ({ f with targets := targets } : Frontier).outlook g =
        (targets.map g.pathsThrough).sum + (f.waiting.map fun p => g.pathCount {p}).sum := rfl
    rw [hrest, outlook, htargets, List.map_cons, List.sum_cons]
    omega
  | @turn source _ skipped f' hnone hwaiting hskipped htargets =>
    have hsource : g.pathCount {source} =
        g.pathsThrough target + (f'.targets.map g.pathsThrough).sum := by
      rw [Graph.pathCount_singleton ha, htargets, List.map_cons, List.sum_cons]
    rw [outlook, outlook, hwaiting, hnone, List.map_append, List.sum_append, List.map_cons,
      List.sum_cons, hsource]
    omega

/-- Each port that is added brings the paths that start from it. -/
theorem outlook_enqueue (f : Frontier) (g : Graph) (changed : List PortRef) :
    (f.enqueue changed).outlook g = f.outlook g + (changed.map fun p => g.pathCount {p}).sum := by
  have htargets : (f.enqueue changed).targets = f.targets := rfl
  rw [outlook, outlook, htargets, waiting_enqueue, List.map_append, List.sum_append, Nat.add_assoc]

end Frontier

/-! ### Passes -/

variable {H : Type} [Host H] {ctx : LoadContext}

namespace Stage

variable {s : Stage H}

/-- The outputs that a reaction changes are outputs of its node, each named once. -/
theorem nodup_changed (i : Nat) (n : Node) (r : Reaction Behavior) : (changed i n r).Nodup := by
  refine List.Nodup.map ?_ (List.nodup_range.filter _)
  intro port port' heq
  exact congrArg PortRef.port heq

theorem node_of_mem_changed {i : Nat} {n : Node} {r : Reaction Behavior} {p : PortRef}
    (hp : p ∈ changed i n r) : p.node = i := by
  obtain ⟨port, -, rfl⟩ := List.mem_map.1 hp
  rfl

/-- An evaluation of a node changes outputs of this node, each named once. -/
theorem EvaluateOutcome.outputs {i : Nat} {trigger : Trigger} {o : Stage H × List PortRef}
    (h : s.EvaluateOutcome ctx i trigger o) : o.2.Nodup ∧ ∀ p ∈ o.2, p.node = i := by
  cases h with
  | missing | failed => exact ⟨.nil, fun _ hp => nomatch hp⟩
  | reacted => exact ⟨nodup_changed _ _ _, fun _ hp => node_of_mem_changed hp⟩

/-- An evaluation leaves the links as they are. -/
theorem EvaluateOutcome.links_eq {i : Nat} {trigger : Trigger} {o : Stage H × List PortRef}
    (h : s.EvaluateOutcome ctx i trigger o) : o.1.graph.links = s.graph.links := by
  cases h <;> rfl

/-- A delivery changes outputs of its target alone, each once. -/
theorem DeliverOutcome.outputs {value : Value} {target : PortRef} {o : Stage H × List PortRef}
    (h : s.DeliverOutcome ctx value target o) : o.2.Nodup ∧ ∀ p ∈ o.2, p.node = target.node := by
  cases h with
  | missing | unchanged | stored | failed => exact ⟨.nil, fun _ hp => nomatch hp⟩
  | reacted => exact ⟨nodup_changed _ _ _, fun _ hp => node_of_mem_changed hp⟩

/-- Following a link leaves fewer paths to follow. -/
theorem outlook_deliver_lt (ctx : LoadContext) (ha : s.graph.Acyclic) {f f' : Frontier}
    {value : Value} {target : PortRef} (hdue : f.Due s.graph value target f') :
    (f'.enqueue (s.deliver ctx value target).2).outlook (s.deliver ctx value target).1.graph <
      f.outlook s.graph := by
  have houtcome := s.deliver_outcome ctx value target
  obtain ⟨hnodup, hnode⟩ := houtcome.outputs
  -- the changed outputs belong to the node that the link leads to
  have hchanged : ((s.deliver ctx value target).2.map fun p => s.graph.pathCount {p}).sum ≤
      s.graph.pathCount (Graph.portsOf target.node) := by
    rw [Graph.sum_pathCount ha hnodup]
    exact Graph.pathCount_mono ha fun p hp => hnode p hp
  have hleft := hdue.pathsThrough_add_outlook_le ha
  rw [Frontier.outlook_congr houtcome.along.links_eq, Frontier.outlook_enqueue]
  unfold Graph.pathsThrough at hleft
  omega

/-- A pass follows at most as many links as there are paths left, and is not cut short if it has as
many steps. -/
theorem propagate_outlook (ctx : LoadContext) (ha : s.graph.Acyclic) (steps : Nat) (f : Frontier) :
    steps ≤ (s.propagate ctx steps f).remaining + f.outlook s.graph ∧
      (f.outlook s.graph ≤ steps → (s.propagate ctx steps f).truncated = false) := by
  induction steps generalizing f s with
  | zero =>
    unfold propagate
    split
    · exact ⟨Nat.zero_le _, fun _ => rfl⟩
    · next hsome =>
      have hlt := outlook_deliver_lt ctx ha (Frontier.due_of_next? hsome)
      exact ⟨Nat.zero_le _, fun hle => absurd hlt (by omega)⟩
  | succ steps ih =>
    unfold propagate
    split
    · exact ⟨Nat.le_add_right _ _, fun _ => rfl⟩
    · next value target f' hsome =>
      have hlt := outlook_deliver_lt ctx ha (Frontier.due_of_next? hsome)
      -- the rest of the pass has less to do, by the paths over the link that is followed
      have hlinks := (s.deliver_outcome ctx value target).along.links_eq
      obtain ⟨hsteps, htruncated⟩ := ih (ha.congr hlinks)
        (f'.enqueue (s.deliver ctx value target).2)
      dsimp only
      exact ⟨by omega, fun hle => htruncated (by omega)⟩

end Stage

namespace Runner

/-- A whole pass, given the outputs that have changed, each named once. -/
theorem pass_settles (ctx : LoadContext) (r : Runner) {s : Stage H} (ha : s.graph.Acyclic)
    {changed : List PortRef} (hchanged : changed.Nodup) :
    (r.pass ctx s changed).1.lastSteps ≤ s.graph.pathCount {p | p ∈ changed} ∧
      (s.graph.pathCount {p | p ∈ changed} ≤ ctx.settings.maxSteps →
        (r.pass ctx s changed).1.truncatedPasses = r.truncatedPasses) := by
  obtain ⟨hsteps, htruncated⟩ :=
    Stage.propagate_outlook ctx ha ctx.settings.maxSteps (.ofSources changed)
  rw [Frontier.outlook_ofSources ha hchanged] at hsteps htruncated
  dsimp only [pass]
  refine ⟨by omega, fun hle => ?_⟩
  rw [htruncated hle]
  rfl

/-- The passes of a running graph: the outputs at which a pass starts, and what it comes to. -/
inductive Passes (ctx : LoadContext) (r : Runner) (w : World H) :
    List PortRef → Runner × World H → Prop
  /-- An input bridge shows a value of its signal that is not the same as before. -/
  | injection {i : Nat} {n : Node} {b : InputBridge} {value : Value}
    (hn : r.graph.nodes[i]? = some n) (henabled : n.enabled = true)
    (hbridge : n.behavior.inputBridge? = some b)
    (hnew : (n.ports.outputAt 0).same (b.cast.apply value) = false) :
    Passes ctx r w [⟨i, 0⟩] (r.inject ctx w i value)
  /-- A node is evaluated after a load. -/
  | priming {i : Nat} {n : Node} (hn : r.graph.nodes[i]? = some n) (henabled : n.enabled = true)
    (hbridge : n.behavior.inputBridge? = none) :
    Passes ctx r w (Stage.evaluate ctx ⟨r.graph, w⟩ i .inputs).2 (primeNode ctx (r, w) i)
  /-- A timer of a node fires. -/
  | timer {fire : Fire} {i : Nat} {n : Node} {timers : ArmedTimers}
    (hindex : r.graph.indexOf? fire.node = some i) (hn : r.graph.nodes[i]? = some n)
    (htimers : n.timers.takeFired? fire.key fire.token = some timers)
    (henabled : n.enabled = true) :
    Passes ctx r w (Stage.evaluate ctx ⟨(r.release i n timers).graph, w⟩ i (.timer fire.key)).2
      (r.onTimer ctx w fire)

variable {r : Runner} {w : World H}

/-- An evaluation and the pass after it. -/
theorem evaluate_settles (ha : r.graph.Acyclic) (w : World H) (i : Nat) (trigger : Trigger) :
    (r.evaluate ctx w i trigger).1.lastSteps ≤
        r.graph.pathCount {p | p ∈ (Stage.evaluate ctx ⟨r.graph, w⟩ i trigger).2} ∧
      (r.graph.pathCount {p | p ∈ (Stage.evaluate ctx ⟨r.graph, w⟩ i trigger).2} ≤
          ctx.settings.maxSteps →
        (r.evaluate ctx w i trigger).1.truncatedPasses = r.truncatedPasses) := by
  have houtcome := Stage.evaluate_outcome ctx ⟨r.graph, w⟩ i trigger
  have hsettles := r.pass_settles ctx (ha.congr houtcome.links_eq) houtcome.outputs.1
  rwa [Graph.pathCount_congr houtcome.links_eq] at hsettles

/-- A pass follows no more links than there are paths from the ports that set it going, and if so
many steps are allowed, it is not cut short. -/
theorem Passes.settles {seeds : List PortRef} {o : Runner × World H} (h : r.Passes ctx w seeds o)
    (ha : r.graph.Acyclic) :
    o.1.lastSteps ≤ r.graph.pathCount {p | p ∈ seeds} ∧
      (r.graph.pathCount {p | p ∈ seeds} ≤ ctx.settings.maxSteps →
        o.1.truncatedPasses = r.truncatedPasses) := by
  cases h with
  | @injection i n b value hn henabled hbridge hnew =>
    have houtcome := inject_outcome ctx r w i value
    generalize r.inject ctx w i value = o at houtcome ⊢
    cases houtcome with
    | ignored hignored => cases (hignored n hn henabled).symm.trans hbridge
    | unchanged hn' _ hbridge' hsame =>
      cases hn.symm.trans hn'
      cases hbridge.symm.trans hbridge'
      cases hnew.symm.trans hsame
    | @shown n' b' hn' =>
      -- showing the value leaves the links as they are, so the paths are those of the graph
      have hlinks : (r.graph.replace i (n'.showing (b'.cast.apply value))).links = r.graph.links :=
        rfl
      have hsettles := r.pass_settles ctx
        (s := ⟨r.graph.replace i (n'.showing (b'.cast.apply value)), w⟩) (ha.congr hlinks)
        (List.nodup_singleton (⟨i, 0⟩ : PortRef))
      rwa [Graph.pathCount_congr hlinks] at hsettles
  | @priming i n hn henabled hbridge =>
    have houtcome := primeNode_outcome ctx r w i
    generalize primeNode ctx (r, w) i = o at houtcome ⊢
    cases houtcome with
    | skipped hskipped => exact (hskipped n hn henabled hbridge).elim
    | evaluated => exact evaluate_settles ha w i .inputs
  | @timer fire i n timers hindex hn htimers henabled =>
    have houtcome := onTimer_outcome ctx r w fire
    generalize r.onTimer ctx w fire = o at houtcome ⊢
    cases houtcome with
    | refused hrefused => cases (hrefused i n hindex hn).symm.trans htimers
    | dropped hindex' hn' _ hdisabled =>
      cases hindex.symm.trans hindex'
      cases hn.symm.trans hn'
      cases henabled.symm.trans hdisabled
    | evaluated hindex' hn' htimers' =>
      cases hindex.symm.trans hindex'
      cases hn.symm.trans hn'
      cases htimers.symm.trans htimers'
      exact evaluate_settles (r := r.release i n timers) (ha.congr rfl) w i (.timer fire.key)

/-! ### Enough steps -/

/-- The passes of a graph without cycles have enough steps: as many as there are paths from the
outputs of any node. -/
structure Ample (ctx : LoadContext) (g : Graph) : Prop where
  acyclic : g.Acyclic
  pathCount_le : ∀ i, g.pathCount (Graph.portsOf i) ≤ ctx.settings.maxSteps

theorem Ample.congr {g g' : Graph} (h : Ample ctx g) (hlinks : g'.links = g.links) :
    Ample ctx g' := by
  refine ⟨h.acyclic.congr hlinks, fun i => ?_⟩
  rw [Graph.pathCount_congr hlinks]
  exact h.pathCount_le i

/-- No further pass has been cut short. -/
def Uncut (r : Runner) (o : Runner × World H) : Prop :=
  o.1.graph.links = r.graph.links ∧ o.1.truncatedPasses = r.truncatedPasses

/-- Where enough steps are allowed for every node, no pass is cut short. -/
theorem Passes.truncatedPasses_eq {seeds : List PortRef} {o : Runner × World H}
    (h : r.Passes ctx w seeds o) (hample : Ample ctx r.graph) :
    o.1.truncatedPasses = r.truncatedPasses := by
  have hnode : ∃ i, ∀ p ∈ seeds, p.node = i := by
    cases h with
    | @injection i =>
      refine ⟨i, fun p hp => ?_⟩
      rw [List.mem_singleton.1 hp]
    | @priming i => exact ⟨i, (Stage.evaluate_outcome ctx _ i _).outputs.2⟩
    | @timer _ i => exact ⟨i, (Stage.evaluate_outcome ctx _ i _).outputs.2⟩
  obtain ⟨i, hi⟩ := hnode
  refine (h.settles hample.acyclic).2 ((Graph.pathCount_mono hample.acyclic ?_).trans
    (hample.pathCount_le i))
  exact fun p hp => hi p hp

/-- Giving a value to an input bridge cuts no pass short. -/
theorem uncut_inject (hample : Ample ctx r.graph) (w : World H) (i : Nat) (value : Value) :
    r.Uncut (r.inject ctx w i value) := by
  have houtcome := inject_outcome ctx r w i value
  have hpasses : ∀ {seeds}, r.Passes ctx w seeds (r.inject ctx w i value) →
      r.Uncut (r.inject ctx w i value) := fun h =>
    ⟨houtcome.along.links_eq, h.truncatedPasses_eq hample⟩
  generalize ho : r.inject ctx w i value = o at houtcome hpasses ⊢
  cases houtcome with
  | ignored | unchanged => exact ⟨rfl, rfl⟩
  | shown hn henabled hbridge hnew =>
    have hpass : r.Passes ctx w _ (r.inject ctx w i value) :=
      .injection hn henabled hbridge hnew
    rw [ho] at hpass
    exact hpasses hpass

/-- Priming a node cuts no pass short. -/
theorem uncut_primeNode (hample : Ample ctx r.graph) (w : World H) (i : Nat) :
    r.Uncut (primeNode ctx (r, w) i) := by
  have houtcome := primeNode_outcome ctx r w i
  have hpasses : ∀ {seeds}, r.Passes ctx w seeds (primeNode ctx (r, w) i) →
      r.Uncut (primeNode ctx (r, w) i) := fun h =>
    ⟨houtcome.along.links_eq, h.truncatedPasses_eq hample⟩
  generalize ho : primeNode ctx (r, w) i = o at houtcome hpasses ⊢
  cases houtcome with
  | skipped => exact ⟨rfl, rfl⟩
  | evaluated hn henabled hbridge =>
    have hpass : r.Passes ctx w _ (primeNode ctx (r, w) i) := .priming hn henabled hbridge
    rw [ho] at hpass
    exact hpasses hpass

theorem uncut_prime (hample : Ample ctx r.graph) (w : World H) : r.Uncut (r.prime ctx w) := by
  refine prime_induct (P := r.Uncut) ?_ ⟨rfl, rfl⟩
  rintro r' w' i ⟨hlinks, htruncated⟩
  obtain ⟨hlinks', htruncated'⟩ := uncut_primeNode (hample.congr hlinks) w' i
  exact ⟨hlinks'.trans hlinks, htruncated'.trans htruncated⟩

theorem uncut_onTimer (hample : Ample ctx r.graph) (w : World H) (fire : Fire) :
    r.Uncut (r.onTimer ctx w fire) := by
  have houtcome := onTimer_outcome ctx r w fire
  have hpasses : ∀ {seeds}, r.Passes ctx w seeds (r.onTimer ctx w fire) →
      r.Uncut (r.onTimer ctx w fire) := fun h =>
    ⟨houtcome.along.links_eq, h.truncatedPasses_eq hample⟩
  generalize ho : r.onTimer ctx w fire = o at houtcome hpasses ⊢
  cases houtcome with
  | refused | dropped => exact ⟨rfl, rfl⟩
  | evaluated hindex hn htimers henabled =>
    have hpass : r.Passes ctx w _ (r.onTimer ctx w fire) := .timer hindex hn htimers henabled
    rw [ho] at hpass
    exact hpasses hpass

end Runner

/-! ### Runs -/

namespace Engine

variable {e : Engine H} {settings : Settings} {i : Nat} {g : Graph}

/-- The running graph with number `i` has these links, and none of its passes has been cut short. -/
structure Untruncated (settings : Settings) (i : Nat) (g : Graph) (e : Engine H) : Prop where
  settings_eq : e.settings = settings
  runner : e.AllRunners fun j r => i = j → r.graph.links = g.links ∧ r.truncatedPasses = 0

namespace Untruncated

omit [Host H] in
/-- What is done to a runner leaves the engine uncut if it leaves this runner uncut. -/
theorem updateRunner {j : Nat} {f : Runner → World H → Runner × World H}
    (hf : ∀ {r : Runner} w, r.graph.links = g.links → r.Uncut (f r w))
    (h : e.Untruncated settings i g) :
    (e.updateRunner j f).Untruncated settings i g where
  settings_eq := by
    rw [← h.settings_eq]
    unfold Engine.updateRunner
    split <;> rfl
  runner := by
    refine h.runner.update (fun {r} w hr hij => ?_) fun _ hr => hr
    obtain ⟨hlinks, hzero⟩ := hr hij
    obtain ⟨hlinks', htruncated⟩ := hf w hlinks
    exact ⟨hlinks'.trans hlinks, htruncated.trans hzero⟩

omit [Host H] in
theorem ample (h : e.Untruncated settings i g) (ha : g.Acyclic)
    (hcount : ∀ j, g.pathCount (Graph.portsOf j) ≤ settings.maxSteps) {r : Runner}
    (hlinks : r.graph.links = g.links) : Runner.Ample e.context r.graph := by
  have hample : Runner.Ample e.context g := by
    refine ⟨ha, fun j => ?_⟩
    show _ ≤ e.settings.maxSteps
    rw [h.settings_eq]
    exact hcount j
  exact hample.congr hlinks

theorem closed (ha : g.Acyclic)
    (hcount : ∀ j, g.pathCount (Graph.portsOf j) ≤ settings.maxSteps) :
    Closed fun e : Engine H => e.Untruncated settings i g where
  inject value s h :=
    h.updateRunner fun w hlinks => Runner.uncut_inject (h.ample ha hcount hlinks) w s.node value
  prime _ h := h.updateRunner fun w hlinks => Runner.uncut_prime (h.ample ha hcount hlinks) w
  quiet _ h := ⟨h.settings_eq, h.runner⟩

/-- No turn cuts a pass short. -/
theorem handle (ha : g.Acyclic) (hcount : ∀ j, g.pathCount (Graph.portsOf j) ≤ settings.maxSteps)
    (event : Event) (h : e.Untruncated settings i g) :
    (e.handle event).Untruncated settings i g := by
  cases event with
  | change c => exact (closed ha hcount).handle_change c h
  | timer fire =>
    unfold Engine.handle
    dsimp only
    split
    · exact h
    · split
      · exact h.updateRunner fun w hlinks => Runner.uncut_onTimer (h.ample ha hcount hlinks) w fire
      · exact h

theorem run (ha : g.Acyclic) (hcount : ∀ j, g.pathCount (Graph.portsOf j) ≤ settings.maxSteps)
    {as : List (Action H)} (has : ∀ a ∈ as, ∀ c, a ≠ .install c)
    (h : e.Untruncated settings i g) : (e.run as).Untruncated settings i g := by
  induction as generalizing e with
  | nil => exact h
  | cons a rest ih =>
    refine ih (fun b hb => has b (List.mem_cons_of_mem _ hb)) ?_
    cases a with
    | install c => exact (has _ List.mem_cons_self c rfl).elim
    | stop => exact ⟨h.settings_eq, AllRunners.stop e⟩
    | post | outside => exact ⟨h.settings_eq, h.runner⟩
    | turn =>
      show (e.turn?.getD e).Untruncated settings i g
      cases hturn : e.turn? with
      | none => exact h
      | some e' =>
        obtain ⟨event, queue, -, rfl⟩ := turn?_eq_some hturn
        exact handle ha hcount event (e := e.withQueue queue) ⟨h.settings_eq, h.runner⟩

theorem install (e : Engine H) {c : Configuration} (hg : (buildGraphs [] c.graphs).1[i]? = some g)
    (ha : g.Acyclic) (hcount : ∀ j, g.pathCount (Graph.portsOf j) ≤ e.settings.maxSteps) :
    (e.install c).2.Untruncated e.settings i g := by
  refine (closed ha hcount).install ⟨rfl, AllRunners.assemble fun j g' hg' hij => ?_⟩
  subst hij
  cases hg.symm.trans hg'
  exact ⟨rfl, rfl⟩

end Untruncated

/-- Graphs without cycles always settle. There are finitely many paths in such a graph. Whatever the
state of the graph, a pass follows at most as many links as there are paths from the outputs at
which it starts, and it is not cut short if it has as many steps. So if the limit is at least the
number of paths from the outputs of any one node, no pass is ever cut short after a load. -/
theorem acyclic_settles (e : Engine H) {c : Configuration} {i : Nat} {g : Graph}
    (hg : (buildGraphs [] c.graphs).1[i]? = some g) (ha : g.Acyclic) :
    (g.paths Set.univ).Finite ∧
    (∀ (ctx : LoadContext) (r : Runner) (w : World H) seeds o, r.graph.links = g.links →
      r.Passes ctx w seeds o → o.1.lastSteps ≤ g.pathCount {p | p ∈ seeds} ∧
        (g.pathCount {p | p ∈ seeds} ≤ ctx.settings.maxSteps →
          o.1.truncatedPasses = r.truncatedPasses)) ∧
    ((∀ j, g.pathCount (Graph.portsOf j) ≤ e.settings.maxSteps) →
      ∀ as : List (Action H), (∀ a ∈ as, ∀ c', a ≠ .install c') →
        ∀ r, ((e.act (.install c)).run as).runners[i]? = some r → r.truncatedPasses = 0) := by
  refine ⟨Graph.finite_paths ha _, fun ctx r w seeds o hlinks hpasses => ?_,
    fun hcount as has r hr => ?_⟩
  · have hsettles := hpasses.settles (ha.congr hlinks)
    rwa [Graph.pathCount_congr hlinks] at hsettles
  · have huntruncated := (Untruncated.install e hg ha hcount).run ha hcount has
    exact (huntruncated.runner i r hr rfl).2

/-- A small configuration in which two ways lead from a constant to a delay. -/
def forked : Configuration :=
  { graphs := [{
      id := "g"
      nodes := [{ id := "c", typeName := "const", params := [("value", .bool true)] },
        { id := "m", typeName := "not" }, { id := "n", typeName := "not" },
        { id := "x", typeName := "or" }, { id := "d", typeName := "delay_on" }]
      links := [⟨⟨"c", "out"⟩, ⟨"m", "in"⟩⟩, ⟨⟨"c", "out"⟩, ⟨"n", "in"⟩⟩,
        ⟨⟨"m", "out"⟩, ⟨"x", "a"⟩⟩, ⟨⟨"n", "out"⟩, ⟨"x", "b"⟩⟩, ⟨⟨"x", "out"⟩, ⟨"d", "in"⟩⟩] }] }

/-- The graph that is built from it. -/
def forkedGraph : Graph :=
  ((buildGraphs [] forked.graphs).1[0]?).getD default

theorem acyclic_forkedGraph : forkedGraph.Acyclic :=
  Graph.acyclic_of_lt (by decide +kernel)

/-- Six paths start at the constant, though there are only five links. -/
theorem pathCount_forkedGraph (j : Nat) :
    forkedGraph.pathCount (Graph.portsOf j) =
      if j = 0 then 6 else if j = 1 ∨ j = 2 then 2 else if j = 3 then 1 else 0 := by
  have hlinks : forkedGraph.links = [⟨⟨0, 0⟩, ⟨1, 0⟩⟩, ⟨⟨0, 0⟩, ⟨2, 0⟩⟩, ⟨⟨1, 0⟩, ⟨3, 0⟩⟩,
      ⟨⟨2, 0⟩, ⟨3, 1⟩⟩, ⟨⟨3, 0⟩, ⟨4, 0⟩⟩] := by
    decide +kernel
  -- the paths from a port are those over its links, counted by the ports they lead to
  have hcount : ∀ j, forkedGraph.pathCount (Graph.portsOf j) =
      (if 0 = j then 1 + forkedGraph.pathCount (Graph.portsOf 1) else 0) +
      ((if 0 = j then 1 + forkedGraph.pathCount (Graph.portsOf 2) else 0) +
      ((if 1 = j then 1 + forkedGraph.pathCount (Graph.portsOf 3) else 0) +
      ((if 2 = j then 1 + forkedGraph.pathCount (Graph.portsOf 3) else 0) +
      if 3 = j then 1 + forkedGraph.pathCount (Graph.portsOf 4) else 0))) := by
    intro j
    rw [Graph.pathCount_eq acyclic_forkedGraph, hlinks]
    simp only [List.map_cons, List.map_nil, List.sum_cons, List.sum_nil, Graph.mem_portsOf,
      Graph.pathsThrough]
    split_ifs <;> rfl
  -- from the end of the graph to its beginning
  have hdelay : ∀ j, 4 ≤ j → forkedGraph.pathCount (Graph.portsOf j) = 0 := by
    intro j hj
    rw [hcount]
    split_ifs <;> omega
  have hor : forkedGraph.pathCount (Graph.portsOf 3) = 1 := by
    rw [hcount, hdelay 4 le_rfl]
    rfl
  have hnot : ∀ j, j = 1 ∨ j = 2 → forkedGraph.pathCount (Graph.portsOf j) = 2 := by
    rintro j (rfl | rfl) <;> rw [hcount, hor] <;> rfl
  split_ifs with h₀ h₁ h₃
  · rw [h₀, hcount, hnot 1 (.inl rfl), hnot 2 (.inr rfl)]
    rfl
  · exact hnot j h₁
  · rw [h₃, hor]
  · exact hdelay j (by omega)

/-- With six steps, no pass of the two ways is cut short. -/
theorem acyclic_settles_forked :
    (∀ j, forkedGraph.pathCount (Graph.portsOf j) ≤ 6) ∧
      ∀ r, ((({ new {} { start := default } with settings := { maxSteps := 6 } } :
        Engine MemoryHost).act (.install forked)).run [.turn]).runners[0]? = some r →
          r.truncatedPasses = 0 := by
  have hg : (buildGraphs [] forked.graphs).1[0]? = some forkedGraph :=
    (Option.getD_of_ne_none (by decide +kernel) default).symm
  have hcount : ∀ j, forkedGraph.pathCount (Graph.portsOf j) ≤ 6 := by
    intro j
    rw [pathCount_forkedGraph]
    split_ifs <;> decide
  obtain ⟨-, -, hrun⟩ := acyclic_settles (H := MemoryHost)
    { new {} { start := default } with settings := { maxSteps := 6 } } hg acyclic_forkedGraph
  refine ⟨hcount, hrun hcount [.turn] ?_⟩
  intro a ha c
  rw [List.mem_singleton.1 ha]
  exact nofun

end Engine

end SignalGraph
