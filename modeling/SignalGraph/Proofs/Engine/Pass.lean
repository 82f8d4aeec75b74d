import SignalGraph.Proofs.Engine.Outcome

/-!
# Passes

A pass is followed by an invariant of the frontier and the stage: if every step keeps it, it holds
at the end, and nothing is due any more unless the pass has been cut short (`Runner.pass_induct`).
The three ways in which a running graph is set going, an injection, an evaluation after a load and a
timer, each have a list of their outcomes. In all of them the nodes change by `Node.Step` only
(`Runner.kept_along`).
-/

namespace SignalGraph

/-! ### The next link -/

namespace Frontier

variable {f : Frontier} {g : Graph}

/-- What can be due next: the value, the target, and the frontier after it. -/
inductive Due (f : Frontier) (g : Graph) : Value → PortRef → Frontier → Prop
  /-- The port whose turn it is has a target left. -/
  | going {target : PortRef} {targets : List PortRef} (htargets : f.targets = target :: targets) :
    Due f g f.value target { f with targets := targets }
  /-- It has none, and the turn of the next port that has a target comes. -/
  | turn {source target : PortRef} {skipped : List PortRef} {f' : Frontier}
    (hnone : f.targets = []) (hwaiting : f.waiting = skipped ++ source :: f'.waiting)
    (hskipped : ∀ q ∈ skipped, g.targets q = [])
    (htargets : g.targets source = target :: f'.targets) (hvalue : f'.value = g.outputAt source) :
    Due f g f'.value target f'

/-- The next port is the first one that has links, and its first link is the next one. -/
theorem nextSource?_eq_some {later sources : List PortRef} {value : Value} {target : PortRef}
    {f' : Frontier} (h : nextSource? g later sources = some (value, target, f')) :
    ∃ source skipped, sources = skipped ++ source :: f'.sources ∧ f'.later = later ∧
      (∀ q ∈ skipped, g.targets q = []) ∧ g.targets source = target :: f'.targets ∧
      f'.value = g.outputAt source ∧ value = f'.value := by
  induction sources with
  | nil => cases h
  | cons source rest ih =>
    unfold nextSource? at h
    split at h
    · next hnone =>
      obtain ⟨source', skipped, rfl, hlater, hskipped, hrest⟩ := ih h
      refine ⟨source', source :: skipped, rfl, hlater, fun q hq => ?_, hrest⟩
      rcases List.mem_cons.1 hq with rfl | hq
      · exact hnone
      · exact hskipped q hq
    · next target' targets htargets =>
      cases h
      exact ⟨source, [], rfl, rfl, (fun _ hq => nomatch hq), htargets, rfl, rfl⟩

/-- There is no next port exactly if none of those that wait has links. -/
theorem nextSource?_eq_none {later sources : List PortRef}
    (h : nextSource? g later sources = none) : ∀ q ∈ sources, g.targets q = [] := by
  induction sources with
  | nil => exact fun _ hq => nomatch hq
  | cons source rest ih =>
    unfold nextSource? at h
    split at h
    · next hnone =>
      intro q hq
      rcases List.mem_cons.1 hq with rfl | hq
      · exact hnone
      · exact ih h q hq
    · cases h

theorem due_of_next? {value : Value} {target : PortRef} {f' : Frontier}
    (h : f.next? g = some (value, target, f')) : f.Due g value target f' := by
  unfold next? at h
  split at h
  · next target' targets htargets =>
    cases h
    exact .going htargets
  · next hnone =>
    split at h
    · next hnext =>
      cases h
      obtain ⟨source, skipped, hsources, hlater, hskipped, htargets, hvalue, rfl⟩ :=
        nextSource?_eq_some hnext
      refine .turn hnone ?_ hskipped htargets hvalue
      rw [waiting, waiting, hsources, hlater, List.append_assoc, List.cons_append]
    · next hempty =>
      -- all of `sources` are skipped, and those that wait behind them come up in their order
      obtain ⟨source, skipped, hsources, hlater, hskipped, htargets, hvalue, rfl⟩ :=
        nextSource?_eq_some h
      have hwaiting : f.waiting = (f.sources ++ skipped) ++ source :: f'.waiting := by
        rw [waiting, waiting, hsources, hlater, List.append_assoc, List.reverse_nil,
          List.append_nil]
      refine .turn hnone hwaiting (fun q hq => ?_) htargets hvalue
      rcases List.mem_append.1 hq with hq | hq
      · exact nextSource?_eq_none hempty q hq
      · exact hskipped q hq

/-- When no link is due, no port that waits has a target. -/
theorem targets_of_next?_eq_none (h : f.next? g = none) :
    f.targets = [] ∧ ∀ q ∈ f.waiting, g.targets q = [] := by
  unfold next? at h
  split at h
  · cases h
  · next hnone =>
    split at h
    · cases h
    · next hempty =>
      refine ⟨hnone, fun q hq => ?_⟩
      rcases List.mem_append.1 hq with hq | hq
      · exact nextSource?_eq_none hempty q hq
      · exact nextSource?_eq_none h q hq

end Frontier

variable {H : Type} [Host H] {ctx : LoadContext}

/-! ### Invariants of a pass -/

/-- What every step of a pass keeps. -/
def Stage.StepKeeps (ctx : LoadContext) (I : Frontier → Stage H → Prop) : Prop :=
  ∀ {f : Frontier} {s : Stage H} {value : Value} {target : PortRef} {f' : Frontier},
    f.Due s.graph value target f' → I f s →
      I (f'.enqueue (s.deliver ctx value target).2) (s.deliver ctx value target).1

/-- What every step keeps holds at the end, and unless the pass has been cut short, nothing is due
any more. -/
theorem Stage.propagate_induct {I : Frontier → Stage H → Prop} (hstep : StepKeeps ctx I)
    (steps : Nat) {f : Frontier} {s : Stage H} (h : I f s) :
    ∃ f', I f' (s.propagate ctx steps f).stage ∧ ((s.propagate ctx steps f).truncated = false →
      f'.next? (s.propagate ctx steps f).stage.graph = none) := by
  induction steps generalizing f s with
  | zero =>
    unfold propagate
    split
    · next hnone => exact ⟨f, h, fun _ => hnone⟩
    · exact ⟨f, h, fun htruncated => nomatch htruncated⟩
  | succ steps ih =>
    unfold propagate
    split
    · next hnone => exact ⟨f, h, fun _ => hnone⟩
    · next hsome => exact ih (hstep (Frontier.due_of_next? hsome) h)

namespace Runner

/-- What holds at the start of a pass and is kept by every step holds at its end; and unless passes
have been cut short, nothing is due then. -/
theorem pass_induct (ctx : LoadContext) {I : Frontier → Stage H → Prop}
    (hstep : Stage.StepKeeps ctx I) (r : Runner) {s : Stage H} (changed : List PortRef)
    (h : I (.ofSources changed) s) :
    ∃ f, I f ⟨(r.pass ctx s changed).1.graph, (r.pass ctx s changed).2⟩ ∧
      ((r.pass ctx s changed).1.truncatedPasses = 0 →
        r.truncatedPasses = 0 ∧ f.next? (r.pass ctx s changed).1.graph = none) := by
  obtain ⟨f, hf, hend⟩ := Stage.propagate_induct hstep ctx.settings.maxSteps h
  refine ⟨f, hf, fun hzero => ?_⟩
  dsimp only [pass] at hzero
  split at hzero
  · omega
  · next htruncated => exact ⟨hzero, hend (by simpa using htruncated)⟩

/-- In a pass, nodes change by their work alone. -/
theorem along_pass (r : Runner) (s : Stage H) (changed : List PortRef) :
    s.graph.Along Node.Work (r.pass ctx s changed).1.graph := by
  obtain ⟨-, halong, -⟩ := pass_induct ctx
    (I := fun _ (t : Stage H) => s.graph.Along Node.Work t.graph)
    (fun _ h => h.trans (Stage.deliver_outcome ctx _ _ _).along) r changed (.refl _)
  exact halong

theorem along_evaluate (r : Runner) (w : World H) (i : Nat) (trigger : Trigger)
    (henabled : ∀ n, r.graph.nodes[i]? = some n → n.enabled = true) :
    r.graph.Along Node.Work (r.evaluate ctx w i trigger).1.graph :=
  ((Stage.evaluate_outcome ctx ⟨r.graph, w⟩ i trigger).along henabled).trans (along_pass _ _ _)

/-! ### What sets a graph going -/

theorem inject_eq {r : Runner} {w : World H} {i : Nat} {value : Value} {n : Node}
    (hn : r.graph.nodes[i]? = some n) :
    r.inject ctx w i value =
      match n.enabled, n.behavior.inputBridge? with
      | true, some b =>
        if (n.ports.outputAt 0).same (b.cast.apply value) then ({ r with lastSteps := 0 }, w)
        else r.pass ctx ⟨r.graph.replace i (n.showing (b.cast.apply value)), w⟩ [⟨i, 0⟩]
      | _, _ => (r, w) := by
  unfold inject
  rw [hn]
  rfl

variable (ctx) (r : Runner) (w : World H) (i : Nat)

/-- The ways giving a value to node `i` can end. -/
inductive InjectOutcome (value : Value) : Runner × World H → Prop
  | ignored (h : ∀ n, r.graph.nodes[i]? = some n → n.enabled = true →
      n.behavior.inputBridge? = none) : InjectOutcome value (r, w)
  | unchanged {n : Node} {b : InputBridge} (hn : r.graph.nodes[i]? = some n)
    (henabled : n.enabled = true) (hbridge : n.behavior.inputBridge? = some b)
    (hsame : (n.ports.outputAt 0).same (b.cast.apply value) = true) :
    InjectOutcome value ({ r with lastSteps := 0 }, w)
  | shown {n : Node} {b : InputBridge} (hn : r.graph.nodes[i]? = some n)
    (henabled : n.enabled = true) (hbridge : n.behavior.inputBridge? = some b)
    (hsame : (n.ports.outputAt 0).same (b.cast.apply value) = false) :
    InjectOutcome value
      (r.pass ctx ⟨r.graph.replace i (n.showing (b.cast.apply value)), w⟩ [⟨i, 0⟩])

/-- An injection comes to one of the cases of `InjectOutcome`. -/
theorem inject_outcome (value : Value) :
    r.InjectOutcome ctx w i value (r.inject ctx w i value) := by
  unfold inject
  split
  · next hnone => exact .ignored fun n hn => nomatch hnone.symm.trans hn
  · next n hn =>
    split
    · next b henabled hbridge =>
      dsimp only
      split
      · next hsame => exact .unchanged hn henabled hbridge hsame
      · next hsame => exact .shown hn henabled hbridge (by simpa using hsame)
    · next hother =>
      refine .ignored fun m hm henabled => ?_
      obtain rfl : n = m := Option.some.inj (hn.symm.trans hm)
      cases hbridge : n.behavior.inputBridge? with
      | none => rfl
      | some b => exact (hother b henabled hbridge).elim

/-- The ways the evaluation of node `i` after a load can end. -/
inductive PrimeOutcome : Runner × World H → Prop
  | skipped (h : ∀ n, r.graph.nodes[i]? = some n → n.enabled = true →
      n.behavior.inputBridge? ≠ none) : PrimeOutcome (r, w)
  | evaluated {n : Node} (hn : r.graph.nodes[i]? = some n) (henabled : n.enabled = true)
    (hbridge : n.behavior.inputBridge? = none) : PrimeOutcome (r.evaluate ctx w i .inputs)

/-- Priming a node comes to one of the cases of `PrimeOutcome`. -/
theorem primeNode_outcome : r.PrimeOutcome ctx w i (primeNode ctx (r, w) i) := by
  unfold primeNode
  dsimp only
  split
  · next hnone => exact .skipped fun n hn => nomatch hnone.symm.trans hn
  · next n hn =>
    split
    · next h =>
      rw [Bool.and_eq_true, Option.isNone_iff_eq_none] at h
      exact .evaluated hn h.1 h.2
    · next h =>
      refine .skipped fun m hm henabled hbridge => h ?_
      obtain rfl : n = m := Option.some.inj (hn.symm.trans hm)
      rw [henabled, hbridge]
      rfl

/-- The runner after node `i`, which is `n`, has forgotten all timers but these. -/
def release (n : Node) (timers : ArmedTimers) : Runner :=
  { r with graph := r.graph.replace i { n with timers := timers } }

theorem onTimer_eq {ctx : LoadContext} {r : Runner} {w : World H} {i : Nat} {fire : Fire} {n : Node}
    (hindex : r.graph.indexOf? fire.node = some i) (hn : r.graph.nodes[i]? = some n) :
    r.onTimer ctx w fire =
      match n.timers.takeFired? fire.key fire.token with
      | none => (r, w)
      | some timers =>
        if n.enabled then (r.release i n timers).evaluate ctx w i (.timer fire.key)
        else (r.release i n timers, w) := by
  unfold onTimer
  rw [hindex]
  dsimp only
  rw [hn]
  rfl

/-- The ways a fire can end. -/
inductive TimerOutcome (fire : Fire) : Runner × World H → Prop
  /-- The node that is addressed does not have the timer. -/
  | refused (h : ∀ i n, r.graph.indexOf? fire.node = some i → r.graph.nodes[i]? = some n →
      n.timers.takeFired? fire.key fire.token = none) : TimerOutcome fire (r, w)
  /-- The node forgets the timer, and that is all, as it is disabled. -/
  | dropped {i : Nat} {n : Node} {timers : ArmedTimers}
    (hindex : r.graph.indexOf? fire.node = some i) (hn : r.graph.nodes[i]? = some n)
    (htimers : n.timers.takeFired? fire.key fire.token = some timers)
    (hdisabled : n.enabled = false) : TimerOutcome fire (r.release i n timers, w)
  /-- The node forgets the timer and is evaluated. -/
  | evaluated {i : Nat} {n : Node} {timers : ArmedTimers}
    (hindex : r.graph.indexOf? fire.node = some i) (hn : r.graph.nodes[i]? = some n)
    (htimers : n.timers.takeFired? fire.key fire.token = some timers)
    (henabled : n.enabled = true) :
    TimerOutcome fire ((r.release i n timers).evaluate ctx w i (.timer fire.key))

/-- A fire comes to one of the cases of `TimerOutcome`. -/
theorem onTimer_outcome (fire : Fire) : r.TimerOutcome ctx w fire (r.onTimer ctx w fire) := by
  -- the fire is refused where the node, the key or the token is not found
  unfold onTimer
  split
  · next hnone => exact .refused fun i n hindex => nomatch hnone.symm.trans hindex
  · next i hindex =>
    split
    · next hnone =>
      refine .refused fun j n hj hn => ?_
      obtain rfl : i = j := Option.some.inj (hindex.symm.trans hj)
      cases hnone.symm.trans hn
    · next n hn =>
      split
      · next hnone =>
        refine .refused fun j m hj hm => ?_
        obtain rfl : i = j := Option.some.inj (hindex.symm.trans hj)
        obtain rfl : n = m := Option.some.inj (hn.symm.trans hm)
        exact hnone
      · next timers htimers =>
        dsimp only
        split
        · next henabled => exact .evaluated hindex hn htimers henabled
        · next hdisabled => exact .dropped hindex hn htimers (by simpa using hdisabled)

/-! ### What becomes of the nodes -/

variable {r w i ctx} {value : Value} {fire : Fire} {o : Runner × World H}

/-- In an injection, nodes change by steps alone. -/
theorem InjectOutcome.along (h : r.InjectOutcome ctx w i value o) :
    r.graph.Along Node.Step o.1.graph := by
  cases h with
  | ignored | unchanged => exact .refl _
  | shown hn henabled hbridge =>
    exact (Graph.Along.replace hn (.inject henabled hbridge)).trans (along_pass r ⟨_, w⟩ _).step

/-- When a node is primed, nodes change by their work alone. -/
theorem PrimeOutcome.along (h : r.PrimeOutcome ctx w i o) : r.graph.Along Node.Work o.1.graph := by
  cases h with
  | skipped => exact .refl _
  | evaluated hn henabled =>
    refine along_evaluate _ _ _ _ fun m hm => ?_
    cases hn.symm.trans hm
    exact henabled

theorem along_release {n : Node} {timers : ArmedTimers} (hn : r.graph.nodes[i]? = some n)
    (htimers : n.timers.takeFired? fire.key fire.token = some timers) :
    r.graph.Along Node.Work (r.release i n timers).graph := by
  rw [ArmedTimers.takeFired?_eq_some htimers]
  exact .replace hn (.release List.eraseP_sublist)

/-- When a timer fires, nodes change by their work alone. -/
theorem TimerOutcome.along (h : r.TimerOutcome ctx w fire o) :
    r.graph.Along Node.Work o.1.graph := by
  cases h with
  | refused => exact .refl _
  | dropped _ hn htimers => exact along_release hn htimers
  | evaluated _ hn htimers henabled =>
    refine (along_release hn htimers).trans (along_evaluate _ _ _ _ fun m hm => ?_)
    rw [release, Graph.getElem?_replace_self hn] at hm
    cases hm
    exact henabled

/-- What an evaluation of each node after a load keeps is kept by the whole priming. -/
theorem prime_induct {P : Runner × World H → Prop}
    (hnode : ∀ r w i, P (r, w) → P (primeNode ctx (r, w) i)) (h : P (r, w)) :
    P (r.prime ctx w) := by
  unfold prime
  generalize List.range r.graph.nodes.size = l
  generalize (r, w) = state at h
  induction l generalizing state with
  | nil => exact h
  | cons i rest ih => exact ih _ (hnode state.1 state.2 i h)

/-- What injections, evaluations after a load and timers keep of a running graph. -/
structure Kept (H : Type) [Host H] (P : Runner → Prop) : Prop where
  inject : ∀ ctx {r} (w : World H) i value, P r → P (r.inject ctx w i value).1
  primeNode : ∀ ctx {r} (w : World H) i, P r → P (primeNode ctx (r, w) i).1
  onTimer : ∀ ctx {r} (w : World H) fire, P r → P (r.onTimer ctx w fire).1

theorem Kept.prime {P : Runner → Prop} (hP : Kept H P) (h : P r) : P (r.prime ctx w).1 :=
  prime_induct (P := fun state => P state.1) (fun _ w i h => hP.primeNode ctx w i h) h

theorem kept_const (p : Prop) : Kept H fun _ => p :=
  ⟨fun _ _ _ _ _ h => h, fun _ _ _ _ h => h, fun _ _ _ _ h => h⟩

theorem Kept.and {P Q : Runner → Prop} (hP : Kept H P) (hQ : Kept H Q) :
    Kept H fun r => P r ∧ Q r where
  inject ctx _ w i value h := ⟨hP.inject ctx w i value h.1, hQ.inject ctx w i value h.2⟩
  primeNode ctx _ w i h := ⟨hP.primeNode ctx w i h.1, hQ.primeNode ctx w i h.2⟩
  onTimer ctx _ w fire h := ⟨hP.onTimer ctx w fire h.1, hQ.onTimer ctx w fire h.2⟩

/-- A choice of properties is kept if each of them is. -/
theorem kept_exists {ι : Type} {P : ι → Runner → Prop} (hP : ∀ i, Kept H (P i)) :
    Kept H fun r => ∃ i, P i r where
  inject ctx _ w j value h := h.imp fun i => (hP i).inject ctx w j value
  primeNode ctx _ w j h := h.imp fun i => (hP i).primeNode ctx w j
  onTimer ctx _ w fire h := h.imp fun i => (hP i).onTimer ctx w fire

/-- How a graph has come from another one is kept. -/
theorem kept_along (g : Graph) : Kept H fun r => g.Along Node.Step r.graph where
  inject _ _ w i value h := h.trans (inject_outcome _ _ w i value).along
  primeNode _ _ w i h := h.trans (primeNode_outcome _ _ w i).along.step
  onTimer _ _ w fire h := h.trans (onTimer_outcome _ _ w fire).along.step

/-- What every step of a node keeps holds of all nodes of a running graph throughout. -/
theorem kept_nodes {P : Nat → Node → Prop}
    (hP : ∀ {i : Nat} {n n' : Node}, Node.Step n n' → P i n → P i n') :
    Kept H fun r => ∀ (i : Nat) n, r.graph.nodes[i]? = some n → P i n where
  inject _ _ w i value h := (inject_outcome _ _ w i value).along.forall_nodes hP h
  primeNode _ _ w i h := (primeNode_outcome _ _ w i).along.step.forall_nodes hP h
  onTimer _ _ w fire h := (onTimer_outcome _ _ w fire).along.step.forall_nodes hP h

/-- When a graph is primed, nodes change by their work alone. -/
theorem along_prime (ctx : LoadContext) (r : Runner) (w : World H) :
    r.graph.Along Node.Work (r.prime ctx w).1.graph := by
  refine prime_induct (P := fun state => r.graph.Along Node.Work state.1.graph) ?_ (.refl _)
  intro r' w' i h
  exact h.trans (primeNode_outcome ctx r' w' i).along

end Runner

end SignalGraph
