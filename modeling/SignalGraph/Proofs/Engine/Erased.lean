import SignalGraph.Proofs.Engine.Jobs
import SignalGraph.Proofs.Graph.Erased

/-!
# Graphs at work without a dormant node

A dormant node takes no part in what its graph does. An evaluation and a delivery do the same in the
graph without it (`Stage.evaluate_erase`, `Stage.deliver_erase`). A pass follows the links to the
dormant node in between, and these deliveries leave everything else alone
(`Stage.deliver_dormant`); so a pass that is not cut short goes on in the same way without them, in
fewer steps (`Stage.propagate_erase`). Hence injections, the priming and fires leave the same graph
behind, up to the dormant node, and the same world (`Runner.Erased.perform`).
-/

namespace SignalGraph

variable {H : Type} [Host H] {ctx : LoadContext} {k : Nat}

/-! ### Evaluations -/

namespace Stage

omit [Host H] in
/-- The stage without node `k` of its graph. -/
def erase (k : Nat) (s : Stage H) : Stage H :=
  { s with graph := s.graph.erase k }

variable (s : Stage H)

/-- What is evaluated is evaluated in the same way without node `k`. -/
theorem evaluate_erase (ctx : LoadContext) (k i : Nat) (trigger : Trigger) :
    (s.evaluate ctx (skip k i) trigger).1.erase k = ((s.erase k).evaluate ctx i trigger).1 ∧
      (s.evaluate ctx (skip k i) trigger).2 =
        ((s.erase k).evaluate ctx i trigger).2.map (PortRef.raise k) := by
  have hnode : (s.erase k).graph.nodes[i]? = s.graph.nodes[skip k i]? := s.graph.getElem?_erase k i
  cases hn : s.graph.nodes[skip k i]? with
  | none =>
    rw [evaluate, evaluate, hnode, hn]
    exact ⟨rfl, rfl⟩
  | some n =>
    rw [evaluate_eq ctx s _ trigger hn, evaluate_eq ctx (s.erase k) i trigger (hnode.trans hn),
      show (s.erase k).world = s.world from rfl]
    split
    · exact ⟨rfl, rfl⟩
    · next r _ =>
      refine ⟨?_, ?_⟩
      · rw [erase, react, Graph.erase_replace]
        rfl
      · rw [changed, changed, List.map_map]
        rfl

/-- What is delivered is delivered in the same way without node `k`. -/
theorem deliver_erase (ctx : LoadContext) (k : Nat) (value : Value) (target : PortRef) :
    (s.deliver ctx value (target.raise k)).1.erase k = ((s.erase k).deliver ctx value target).1 ∧
      (s.deliver ctx value (target.raise k)).2 =
        ((s.erase k).deliver ctx value target).2.map (PortRef.raise k) := by
  have hnode : (s.erase k).graph.nodes[target.node]? = s.graph.nodes[skip k target.node]? :=
    s.graph.getElem?_erase k target.node
  cases hn : s.graph.nodes[skip k target.node]? with
  | none =>
    rw [deliver, deliver, hnode, show (target.raise k).node = skip k target.node from rfl, hn]
    exact ⟨rfl, rfl⟩
  | some n =>
    let stored : Stage H :=
      { s with graph := s.graph.replace (skip k target.node) (n.receive target.port value) }
    -- storing a value at another node and erasing this one commute
    have hstored : stored.erase k = { s.erase k with
        graph := (s.erase k).graph.replace target.node (n.receive target.port value) } :=
      congrArg (Stage.mk · s.world) (s.graph.erase_replace k target.node _)
    have hraised : s.graph.nodes[(target.raise k).node]? = some n := hn
    rw [deliver_eq hraised, deliver_eq (hnode.trans hn),
      show (target.raise k).port = target.port from rfl]
    split
    · exact ⟨rfl, rfl⟩
    · split
      · rw [← hstored]
        exact stored.evaluate_erase ctx k target.node .inputs
      · exact ⟨hstored, rfl⟩

variable {s}

/-- What is delivered to a dormant node stays there. -/
theorem deliver_dormant (ctx : LoadContext) (hs : s.graph.Dormant k) (value : Value)
    {target : PortRef} (htarget : target.node = k) :
    (s.deliver ctx value target).1.erase k = s.erase k ∧ (s.deliver ctx value target).2 = [] := by
  obtain ⟨n, hn, hdormant⟩ := hs.exists_node
  have hdisabled : ∀ m, s.graph.nodes[target.node]? = some m → m.enabled = false := by
    intro m hm
    rw [htarget] at hm
    cases hn.symm.trans hm
    exact hdormant.disabled
  have houtcome := deliver_outcome ctx s value target
  generalize s.deliver ctx value target = o at houtcome ⊢
  cases houtcome with
  | missing | unchanged => exact ⟨rfl, rfl⟩
  | @stored m hm =>
    refine ⟨?_, rfl⟩
    rw [erase, htarget, Graph.erase_replace_self]
    rfl
  | failed hm _ henabled | reacted hm _ henabled => cases henabled.symm.trans (hdisabled _ hm)

end Stage

/-! ### Passes -/

/-- Those of the ports that have a target. -/
def Graph.linked (g : Graph) (ports : List PortRef) : List PortRef :=
  ports.filter fun p => !(g.targets p).isEmpty

namespace Graph

variable {g : Graph} {p : PortRef} {skipped rest : List PortRef}

theorem linked_eq_nil (h : ∀ q ∈ skipped, g.targets q = []) : g.linked skipped = [] :=
  List.filter_eq_nil_iff.2 fun q hq => by simp [h q hq]

theorem linked_append (g : Graph) (l l' : List PortRef) :
    g.linked (l ++ l') = g.linked l ++ g.linked l' :=
  List.filter_append ..

theorem linked_cons_of_eq_nil (h : g.targets p = []) : g.linked (p :: rest) = g.linked rest :=
  List.filter_cons_of_neg (by simp [h])

theorem linked_cons_of_ne_nil (h : g.targets p ≠ []) : g.linked (p :: rest) = p :: g.linked rest :=
  List.filter_cons_of_pos (by simpa using h)

/-- Ports without targets are passed over. -/
theorem linked_skipped (h : ∀ q ∈ skipped, g.targets q = []) :
    g.linked (skipped ++ rest) = g.linked rest := by
  rw [linked_append, linked_eq_nil h, List.nil_append]

end Graph

namespace Frontier

/-- The frontier before a target whose turn has come. -/
def reopen (f : Frontier) (target : PortRef) : Frontier :=
  { f with targets := target :: f.targets }

/-- The links that are due in `g` and do not lead to node `k` are due in the graph `g'` without that
node, in the same order. -/
structure Matches (k : Nat) (f : Frontier) (g' : Graph) (f' : Frontier) : Prop where
  targets_eq : f'.targets = f.targets.filterMap (PortRef.lower? k)
  value_eq : f'.targets ≠ [] → f'.value = f.value
  exists_waiting : ∃ waiting : List PortRef, f.waiting = waiting.map (PortRef.raise k) ∧
    g'.linked f'.waiting = g'.linked waiting

variable {g g' : Graph} {f f₁ f' f₁' : Frontier} {value : Value} {target : PortRef}

theorem Due.value_eq (h : f.Due g value target f₁) : value = f₁.value := by
  cases h <;> rfl

/-- A pass from raised ports begins alike. -/
theorem matches_ofSources (k : Nat) (g' : Graph) (sources : List PortRef) :
    (ofSources (sources.map (PortRef.raise k))).Matches k g' (ofSources sources) where
  targets_eq := rfl
  value_eq _ := rfl
  exists_waiting := ⟨sources, List.append_nil _, by simp [waiting, ofSources]⟩

/-- When the turn of a port comes, it is the first one that waits and has a target. -/
theorem due_of_linked {source : PortRef} {rest : List PortRef} (hnone : f.targets = [])
    (hlinked : g.linked f.waiting = source :: rest) : ∃ value target f₁,
      f.next? g = some (value, target, f₁) ∧ value = g.outputAt source ∧ f₁.value = value ∧
        g.targets source = target :: f₁.targets ∧ g.linked f₁.waiting = rest := by
  cases hnext : f.next? g with
  | none =>
    rw [Graph.linked_eq_nil (targets_of_next?_eq_none hnext).2] at hlinked
    cases hlinked
  | some due =>
    obtain ⟨value, target, f₁⟩ := due
    refine ⟨value, target, f₁, rfl, ?_⟩
    cases due_of_next? hnext with
    | going htargets => cases hnone.symm.trans htargets
    | @turn first _ skipped _ _ hwaiting hskipped htargets hvalue =>
      rw [hwaiting, Graph.linked_skipped hskipped,
        Graph.linked_cons_of_ne_nil (by rw [htargets]; exact List.cons_ne_nil _ _)] at hlinked
      obtain ⟨rfl, hrest⟩ := List.cons_eq_cons.1 hlinked
      exact ⟨hvalue, rfl, htargets, hrest⟩

/-- Nothing is due if no port that waits has a target. -/
theorem next?_eq_none_of_linked (htargets : f.targets = []) (hlinked : g.linked f.waiting = []) :
    f.next? g = none := by
  cases hnext : f.next? g with
  | none => rfl
  | some due =>
    obtain ⟨value, target, f₁⟩ := due
    cases due_of_next? hnext with
    | going htargets' => cases htargets.symm.trans htargets'
    | turn _ hwaiting hskipped htargets' _ =>
      rw [hwaiting, Graph.linked_skipped hskipped,
        Graph.linked_cons_of_ne_nil (by rw [htargets']; exact List.cons_ne_nil _ _)] at hlinked
      cases hlinked

namespace Matches

/-- The links of the graph are all that matters. -/
theorem congr (h : f.Matches k g f') (hlinks : g'.links = g.links) : f.Matches k g' f' := by
  have hlinked : g'.linked = g.linked := by
    unfold Graph.linked Graph.targets
    rw [hlinks]
  refine ⟨h.targets_eq, h.value_eq, ?_⟩
  rw [hlinked]
  exact h.exists_waiting

/-- Raised ports may be added on one side and the ports on the other. -/
theorem enqueue (h : f.Matches k g' f') (changed : List PortRef) :
    (f.enqueue (changed.map (PortRef.raise k))).Matches k g' (f'.enqueue changed) := by
  obtain ⟨waiting, hwaiting, hlinked⟩ := h.exists_waiting
  refine ⟨h.targets_eq, h.value_eq, waiting ++ changed, ?_, ?_⟩
  · rw [waiting_enqueue, hwaiting, List.map_append]
  · rw [waiting_enqueue, Graph.linked_append, Graph.linked_append, hlinked]

/-- When nothing is due, nothing is due without node `k`. -/
theorem next?_eq_none (h : f.Matches k (g.erase k) f') (hnone : f.next? g = none) :
    f'.next? (g.erase k) = none := by
  obtain ⟨htargets, hskipped⟩ := targets_of_next?_eq_none hnone
  obtain ⟨waiting, hwaiting, hlinked⟩ := h.exists_waiting
  have hnone' : f'.targets = [] := by
    rw [h.targets_eq, htargets]
    rfl
  refine next?_eq_none_of_linked hnone' (hlinked.trans (Graph.linked_eq_nil fun p hp => ?_))
  rw [Graph.targets_erase, hskipped _ (hwaiting ▸ List.mem_map_of_mem hp)]
  rfl

/-- When the turn of a port comes, it comes without node `k`, too, if the port has a target there.
What is due there is the same as before its turn. -/
theorem exists_reopen (h : f.Matches k (g.erase k) f') (hdue : f.Due g value target f₁) :
    ∃ f₂, f₂.next? (g.erase k) = f'.next? (g.erase k) ∧
      (f₁.reopen target).Matches k (g.erase k) f₂ := by
  cases hdue with
  | going htargets =>
    refine ⟨f', rfl, ?_⟩
    rw [reopen, ← htargets]
    exact h
  | @turn source target skipped f₁ hnone hwaiting hskipped htargets hvalue =>
    obtain ⟨waiting, hraised, hlinked⟩ := h.exists_waiting
    obtain ⟨passed, rest, rfl, rfl, hrest⟩ := List.map_eq_append_iff.1 (hraised.symm.trans hwaiting)
    obtain ⟨source', rest', rfl, rfl, hrest'⟩ := List.map_eq_cons_iff.1 hrest
    have hpassed : ∀ q ∈ passed, (g.erase k).targets q = [] := by
      intro q hq
      rw [Graph.targets_erase, hskipped _ (List.mem_map_of_mem hq)]
      rfl
    rw [Graph.linked_skipped hpassed] at hlinked
    have hnone' : f'.targets = [] := by
      rw [h.targets_eq, hnone]
      rfl
    have htargets' : (g.erase k).targets source' =
        (target :: f₁.targets).filterMap (PortRef.lower? k) := by
      rw [Graph.targets_erase, htargets]
    by_cases hlive : (g.erase k).targets source' = []
    · -- all of its targets are at node `k`, so there its turn is skipped
      rw [Graph.linked_cons_of_eq_nil hlive] at hlinked
      refine ⟨f', rfl, ?_, fun hsome => (hsome hnone').elim, rest', hrest'.symm, hlinked⟩
      rw [hnone', ← hlive, htargets']
      rfl
    · rw [Graph.linked_cons_of_ne_nil hlive] at hlinked
      obtain ⟨value, target', f₂, hnext, rfl, hvalue', htargets'', hrest''⟩ :=
        due_of_linked hnone' hlinked
      refine ⟨f₂.reopen target', ?_, htargets''.symm.trans htargets', fun _ => ?_, rest',
        hrest'.symm, hrest''⟩
      · rw [hnext, ← hvalue']
        rfl
      · exact (hvalue'.trans (g.outputAt_erase k source')).trans hvalue.symm

/-- A link to node `k` is not due without it. -/
theorem of_none (h : (f.reopen target).Matches k g' f') (htarget : target.lower? k = none) :
    f.Matches k g' f' := by
  obtain ⟨htargets, hvalue, hwaiting⟩ := h
  rw [reopen, List.filterMap_cons_none htarget] at htargets
  exact ⟨htargets, hvalue, hwaiting⟩

/-- Any other link is due at the same time. -/
theorem exists_next? (h : (f.reopen (target.raise k)).Matches k g' f') :
    ∃ f₁', f'.next? g' = some (f.value, target, f₁') ∧ f.Matches k g' f₁' := by
  have htargets : f'.targets = target :: f.targets.filterMap (PortRef.lower? k) := by
    rw [h.targets_eq, reopen, List.filterMap_cons_some (PortRef.lower?_raise k target)]
  have hvalue : f'.value = f.value := h.value_eq (by rw [htargets]; exact List.cons_ne_nil _ _)
  refine ⟨{ f' with targets := f.targets.filterMap (PortRef.lower? k) }, ?_, rfl, fun _ => hvalue,
    h.exists_waiting⟩
  rw [next?, htargets, ← hvalue]

end Matches

end Frontier

namespace Stage

/-- A pass depends on what is due next. -/
theorem propagate_congr {s : Stage H} {f f' : Frontier} (h : f'.next? s.graph = f.next? s.graph)
    (steps : Nat) : s.propagate ctx steps f' = s.propagate ctx steps f := by
  cases steps <;> rw [propagate, propagate, h]

/-- Where nothing is due, the pass is at its end. -/
theorem propagate_of_none {s : Stage H} {f : Frontier} (h : f.next? s.graph = none) (steps : Nat) :
    s.propagate ctx steps f = { stage := s, remaining := steps, truncated := false } := by
  cases steps <;> rw [propagate, h]

/-- Where a link is due, the pass delivers its value and goes on. -/
theorem propagate_of_some {s : Stage H} {f f' : Frontier} {value : Value} {target : PortRef}
    (h : f.next? s.graph = some (value, target, f')) (steps : Nat) :
    s.propagate ctx (steps + 1) f =
      (s.deliver ctx value target).1.propagate ctx steps
        (f'.enqueue (s.deliver ctx value target).2) := by
  rw [propagate, h]

/-- A pass that is not cut short needs no more steps without a dormant node, and does the same. -/
theorem propagate_erase {steps : Nat} {s : Stage H} {f : Frontier} (hs : s.graph.Dormant k)
    (hwhole : (s.propagate ctx steps f).truncated = false) {steps' : Nat} (hsteps : steps ≤ steps')
    {f' : Frontier} (hf : f.Matches k (s.graph.erase k) f') :
    ((s.erase k).propagate ctx steps' f').truncated = false ∧
      ((s.erase k).propagate ctx steps' f').stage = (s.propagate ctx steps f).stage.erase k := by
  induction steps generalizing s f steps' f' with
  | zero =>
    cases hnext : f.next? s.graph with
    | some due =>
      rw [propagate, hnext] at hwhole
      cases hwhole
    | none =>
      rw [propagate_of_none hnext, propagate_of_none (s := s.erase k) (hf.next?_eq_none hnext)]
      exact ⟨rfl, rfl⟩
  | succ steps ih =>
    cases hnext : f.next? s.graph with
    | none =>
      rw [propagate_of_none hnext, propagate_of_none (s := s.erase k) (hf.next?_eq_none hnext)]
      exact ⟨rfl, rfl⟩
    | some due =>
      obtain ⟨value, target, f₁⟩ := due
      have hdue := Frontier.due_of_next? hnext
      obtain rfl := hdue.value_eq
      obtain ⟨f₂, hsame, hopen⟩ := hf.exists_reopen hdue
      have halong := (s.deliver_outcome ctx f₁.value target).along
      have hlinks : ((s.deliver ctx f₁.value target).1.graph.erase k).links =
          (s.graph.erase k).links :=
        congrArg (List.filterMap (Link.lower? k)) halong.links_eq
      have hdormant := hs.along halong.step
      rw [propagate_of_some hnext] at hwhole ⊢
      rw [← propagate_congr (s := s.erase k) hsame]
      cases htarget : target.lower? k with
      | none =>
        -- only the dormant node notices
        obtain ⟨hstage, hchanged⟩ :=
          deliver_dormant ctx hs f₁.value (PortRef.lower?_eq_none_iff.1 htarget)
        rw [← hstage]
        refine ih hdormant hwhole (by omega) ?_
        rw [hchanged]
        exact ((hopen.of_none htarget).enqueue []).congr hlinks
      | some target' =>
        obtain rfl := PortRef.lower?_eq_some_iff.1 htarget
        obtain ⟨f₃, hnext', hrest⟩ := hopen.exists_next?
        obtain ⟨hstage, hchanged⟩ := s.deliver_erase ctx k f₁.value target'
        obtain ⟨rest', rfl⟩ : ∃ rest', steps' = rest' + 1 := ⟨steps' - 1, by omega⟩
        rw [propagate_of_some (s := s.erase k) hnext', ← hstage]
        refine ih hdormant hwhole (by omega) ?_
        rw [hchanged]
        exact (hrest.enqueue _).congr hlinks

end Stage

/-! ### Running graphs -/

/-- The same task, with the numbers that the nodes of the graph without node `k` have in the
graph. -/
def Task.raise (k : Nat) : Task → Task
  | .receive node value => .receive (skip k node) value
  | .prime => .prime
  | .fire f => .fire f

namespace Runner

variable {r r' : Runner} {w w' : World H}

/-- A pass that has been cut short stays counted in later passes. -/
theorem truncatedPasses_pass (h : r.truncatedPasses ≠ 0) (s : Stage H) (changed : List PortRef) :
    (r.pass ctx s changed).1.truncatedPasses ≠ 0 := by
  dsimp only [pass]
  split <;> omega

/-- A pass that has been cut short is not forgotten. -/
theorem kept_truncated (H : Type) [Host H] : Kept H fun r => r.truncatedPasses ≠ 0 where
  inject ctx r w i value h := by
    have houtcome := inject_outcome ctx r w i value
    generalize r.inject ctx w i value = o at houtcome ⊢
    cases houtcome with
    | ignored | unchanged => exact h
    | shown => exact truncatedPasses_pass h _ _
  primeNode ctx r w i h := by
    have houtcome := primeNode_outcome ctx r w i
    generalize primeNode ctx (r, w) i = o at houtcome ⊢
    cases houtcome with
    | skipped => exact h
    | evaluated => exact truncatedPasses_pass h _ _
  onTimer ctx r w fire h := by
    have houtcome := onTimer_outcome ctx r w fire
    generalize r.onTimer ctx w fire = o at houtcome ⊢
    cases houtcome with
    | refused | dropped => exact h
    | @evaluated i n timers =>
      exact truncatedPasses_pass (r := r.release i n timers) h _ _

/-- In the same world, the second graph is the first one without its dormant node `k`, and none of
its passes have been cut short. -/
structure Erased (k : Nat) (a a' : Runner × World H) : Prop where
  dormant : a.1.graph.Dormant k
  graph_eq : a'.1.graph = a.1.graph.erase k
  whole : a'.1.truncatedPasses = 0
  world_eq : a'.2 = a.2

/-- Unless it is cut short, a pass does the same without the dormant node. -/
theorem erased_pass {s : Stage H} (hs : s.graph.Dormant k) (hr' : r'.truncatedPasses = 0)
    (changed : List PortRef)
    (hwhole : (r.pass ctx s (changed.map (PortRef.raise k))).1.truncatedPasses = 0) :
    Erased k (r.pass ctx s (changed.map (PortRef.raise k))) (r'.pass ctx (s.erase k) changed) := by
  have hdormant : (r.pass ctx s (changed.map (PortRef.raise k))).1.graph.Dormant k :=
    hs.along (along_pass _ _ _).step
  have htruncated : (s.propagate ctx ctx.settings.maxSteps
      (.ofSources (changed.map (PortRef.raise k)))).truncated = false := by
    dsimp only [pass] at hwhole
    split at hwhole
    · omega
    · next h => simpa using h
  obtain ⟨htruncated', hstage⟩ := Stage.propagate_erase hs htruncated (Nat.le_refl _)
    (Frontier.matches_ofSources k _ changed)
  refine ⟨hdormant, congrArg Stage.graph hstage, ?_, (congrArg Stage.world hstage :)⟩
  show (if _ then _ else _) = 0
  rw [htruncated']
  exact hr'

namespace Erased

omit [Host H] in
theorem getElem?_eq (h : Erased k (r, w) (r', w')) (i : Nat) :
    r'.graph.nodes[i]? = r.graph.nodes[skip k i]? := by
  rw [h.graph_eq]
  exact r.graph.getElem?_erase k i

/-- An evaluation of another node does the same without it, with the pass after it. -/
theorem evaluate (h : Erased k (r, w) (r', w')) {i : Nat} (trigger : Trigger)
    (henabled : ∀ n, r.graph.nodes[skip k i]? = some n → n.enabled = true)
    (hwhole : (r.evaluate ctx w (skip k i) trigger).1.truncatedPasses = 0) :
    Erased k (r.evaluate ctx w (skip k i) trigger) (r'.evaluate ctx w' i trigger) := by
  obtain ⟨hdormant, hgraph, hr', hw⟩ := h
  obtain rfl : w' = w := hw
  let s : Stage H := ⟨r.graph, w'⟩
  obtain ⟨hstage, hchanged⟩ := s.evaluate_erase ctx k i trigger
  have hs := hdormant.along ((Stage.evaluate_outcome ctx s _ trigger).along henabled).step
  have hr : r'.evaluate ctx w' i trigger = r'.pass ctx ((s.erase k).evaluate ctx i trigger).1
      ((s.erase k).evaluate ctx i trigger).2 := by
    rw [Runner.evaluate, hgraph]
    rfl
  have hevaluate : r.evaluate ctx w' (skip k i) trigger =
      r.pass ctx (s.evaluate ctx (skip k i) trigger).1
        (((s.erase k).evaluate ctx i trigger).2.map (PortRef.raise k)) := by
    rw [← hchanged]
    rfl
  rw [hevaluate] at hwhole ⊢
  rw [hr, ← hstage]
  exact erased_pass hs hr' _ hwhole

theorem inject (h : Erased k (r, w) (r', w')) (i : Nat) (value : Value)
    (hwhole : (r.inject ctx w (skip k i) value).1.truncatedPasses = 0) :
    Erased k (r.inject ctx w (skip k i) value) (r'.inject ctx w' i value) := by
  have hnode := h.getElem?_eq i
  obtain ⟨hdormant, hgraph, hr', hw⟩ := h
  obtain rfl : w' = w := hw
  cases hn : r.graph.nodes[skip k i]? with
  | none =>
    rw [Runner.inject, Runner.inject, hnode, hn]
    exact ⟨hdormant, hgraph, hr', rfl⟩
  | some n =>
    rw [inject_eq hn] at hwhole ⊢
    rw [inject_eq (hnode.trans hn)]
    split
    · next bridge henabled hbridge =>
      rw [henabled, hbridge] at hwhole
      dsimp only at hwhole
      split
      · exact ⟨hdormant, hgraph, hr', rfl⟩
      · next hdiffers =>
        rw [if_neg hdiffers] at hwhole
        have halong : r.graph.Along Node.Step
            (r.graph.replace (skip k i) (n.showing (bridge.cast.apply value))) :=
          .replace hn (.inject henabled hbridge)
        let shown : Stage H :=
          ⟨r.graph.replace (skip k i) (n.showing (bridge.cast.apply value)), w'⟩
        -- the graph that shows the value, without the node, is the graph without it that shows the
        -- value
        have hshown : shown.erase k =
            ⟨r'.graph.replace i (n.showing (bridge.cast.apply value)), w'⟩ := by
          rw [hgraph, ← Graph.erase_replace]
          rfl
        rw [← hshown]
        exact erased_pass (s := shown) (hdormant.along halong) hr' [⟨i, 0⟩] hwhole
    · exact ⟨hdormant, hgraph, hr', rfl⟩

theorem primeNode (h : Erased k (r, w) (r', w')) (i : Nat)
    (hwhole : (primeNode ctx (r, w) (skip k i)).1.truncatedPasses = 0) :
    Erased k (Runner.primeNode ctx (r, w) (skip k i)) (Runner.primeNode ctx (r', w') i) := by
  have hnode := h.getElem?_eq i
  unfold Runner.primeNode at hwhole ⊢
  dsimp only at hwhole ⊢
  rw [hnode]
  cases hn : r.graph.nodes[skip k i]? with
  | none => exact h
  | some n =>
    rw [hn] at hwhole
    dsimp only at hwhole ⊢
    split
    · next hready =>
      rw [if_pos hready] at hwhole
      refine h.evaluate .inputs (fun m hm => ?_) hwhole
      cases hn.symm.trans hm
      exact (Bool.and_eq_true_iff.1 hready).1
    · exact h

/-- The dormant node is not evaluated. -/
theorem primeNode_self (h : Erased k (r, w) (r', w')) : Runner.primeNode ctx (r, w) k = (r, w) := by
  obtain ⟨n, hn, hdormant⟩ := h.dormant.exists_node
  unfold Runner.primeNode
  dsimp only
  rw [hn]
  exact if_neg (by simp [hdormant.disabled])

/-- The nodes that are left are evaluated in the same order. -/
theorem primeNodes {a a' : Runner × World H} (h : Erased k a a') (l : List Nat)
    (hwhole : (l.foldl (Runner.primeNode ctx) a).1.truncatedPasses = 0) :
    Erased k (l.foldl (Runner.primeNode ctx) a)
      ((l.filterMap (unskip? k)).foldl (Runner.primeNode ctx) a') := by
  induction l generalizing a a' with
  | nil => exact h
  | cons i rest ih =>
    cases hi : unskip? k i with
    | none =>
      obtain rfl := unskip?_eq_none_iff.1 hi
      rw [List.filterMap_cons_none hi]
      rw [List.foldl_cons, h.primeNode_self] at hwhole ⊢
      exact ih h hwhole
    | some j =>
      obtain rfl := unskip?_eq_some_iff.1 hi
      rw [List.filterMap_cons_some hi]
      refine ih (h.primeNode j ?_) hwhole
      -- a pass that were cut short here would still be counted at the end
      by_contra hcut
      have hkept : ∀ (l : List Nat) (a : Runner × World H), a.1.truncatedPasses ≠ 0 →
          (l.foldl (Runner.primeNode ctx) a).1.truncatedPasses ≠ 0 := by
        intro l a ha
        exact List.foldlRecOn (motive := fun a : Runner × World H => a.1.truncatedPasses ≠ 0) l _ ha
          fun a ha i _ => (kept_truncated H).primeNode ctx a.2 i ha
      exact hkept rest _ hcut hwhole

/-- Priming the graph does the same without the dormant node, which it skips. -/
theorem prime (h : Erased k (r, w) (r', w')) (hwhole : (r.prime ctx w).1.truncatedPasses = 0) :
    Erased k (r.prime ctx w) (r'.prime ctx w') := by
  obtain ⟨n, hn, -⟩ := h.dormant.exists_node
  have hk := Graph.lt_size_of_getElem? hn
  have hrange : List.range r'.graph.nodes.size =
      (List.range r.graph.nodes.size).filterMap (unskip? k) := by
    rw [h.graph_eq, Graph.size_erase hk, filterMap_unskip?_range hk]
  rw [Runner.prime, Runner.prime, hrange]
  exact h.primeNodes _ hwhole

/-- A fire that is addressed to the dormant node is refused with it and without it. -/
theorem onTimer_self (ctx : LoadContext) (h : Erased k (r, w) (r', w')) {fire : Fire} {n : Node}
    (hn : r.graph.nodes[k]? = some n) (hfire : n.id = fire.node) :
    r.onTimer ctx w fire = (r, w) ∧ r'.onTimer ctx w' fire = (r', w') := by
  obtain ⟨n', hn', hdormant⟩ := h.dormant.exists_node
  obtain rfl := Option.some.inj (hn.symm.trans hn')
  constructor
  · unfold Runner.onTimer
    rw [← hfire, Graph.indexOf?_id h.dormant.nodup_ids hn]
    dsimp only
    rw [hn]
    dsimp only
    rw [hdormant.timers]
    rfl
  · unfold Runner.onTimer
    rw [h.graph_eq, ← hfire, Graph.indexOf?_erase_self hn h.dormant.nodup_ids]

omit [Host H] in
theorem release (h : Erased k (r, w) (r', w')) {i : Nat} {n : Node} {fire : Fire}
    {timers : ArmedTimers} (hn : r.graph.nodes[skip k i]? = some n)
    (htimers : n.timers.takeFired? fire.key fire.token = some timers) :
    Erased k (r.release (skip k i) n timers, w) (r'.release i n timers, w') where
  dormant := h.dormant.along (along_release hn htimers).step
  graph_eq := by
    rw [Runner.release, Runner.release, Graph.erase_replace, ← h.graph_eq]
  whole := h.whole
  world_eq := h.world_eq

/-- A fire for the dormant node is refused, and any other one does the same on both sides. -/
theorem onTimer (h : Erased k (r, w) (r', w')) (fire : Fire)
    (hwhole : (r.onTimer ctx w fire).1.truncatedPasses = 0) :
    Erased k (r.onTimer ctx w fire) (r'.onTimer ctx w' fire) := by
  obtain ⟨n, hn, -⟩ := h.dormant.exists_node
  by_cases hfire : n.id = fire.node
  · obtain ⟨hself, hself'⟩ := onTimer_self ctx h hn hfire
    rw [hself, hself']
    exact h
  -- the fire is for another node, which is found at its place without this one
  · have hindex := Graph.indexOf?_erase hn hfire
    rw [← h.graph_eq] at hindex
    cases hindex' : r'.graph.indexOf? fire.node with
    | none =>
      rw [Runner.onTimer, Runner.onTimer, hindex, hindex']
      exact h
    | some i =>
      rw [hindex', Option.map_some] at hindex
      have hnode := h.getElem?_eq i
      obtain ⟨m, hm, -⟩ := Graph.exists_node_of_indexOf? hindex
      rw [onTimer_eq hindex hm] at hwhole ⊢
      rw [onTimer_eq hindex' (hnode.trans hm)]
      cases htimers : m.timers.takeFired? fire.key fire.token with
      | none => exact h
      | some timers =>
        rw [htimers] at hwhole
        dsimp only at hwhole ⊢
        have hreleased := h.release hm htimers
        split
        · next henabled =>
          rw [if_pos henabled] at hwhole
          refine hreleased.evaluate _ (fun m' hm' => ?_) hwhole
          rw [Runner.release, Graph.getElem?_replace_self hm] at hm'
          cases hm'
          exact henabled
        · exact hreleased

/-- A task leaves the same graph behind, up to the dormant node, and the same world. -/
theorem perform (h : Erased k (r, w) (r', w')) (task : Task)
    (hwhole : (r.perform ctx w (task.raise k)).1.truncatedPasses = 0) :
    Erased k (r.perform ctx w (task.raise k)) (r'.perform ctx w' task) := by
  cases task with
  | receive node value => exact h.inject node value hwhole
  | prime => exact h.prime hwhole
  | fire fire => exact h.onTimer fire hwhole

end Erased

end Runner

end SignalGraph
