import SignalGraph.Proofs.Engine.Coherence
import SignalGraph.Proofs.Engine.Deliveries
import SignalGraph.Proofs.Graph.Denotation
import SignalGraph.Proofs.Node.Computing

/-!
# The engine computes what its graphs denote

In every state after a load, the outputs of a combinational graph are those of its denotation at the
last values that were delivered (`Session.outputs_same`). Nothing else matters about the run:
neither the order of the values, nor those in between, nor what the other graphs do.

Three invariants meet in `Graph.Realizes.output_same`: the wires of the graph are coherent, the
nodes that compute their outputs have done so for their present inputs, and the input bridges show
the last values.
-/

namespace SignalGraph

/-- If every step of a fold makes its own property hold and keeps those of all others, then at the
end the properties of all its steps hold. -/
theorem forall_mem_foldl {σ ι : Type} {step : σ → ι → σ} {P : ι → σ → Prop}
    (hself : ∀ s i, P i (step s i)) (hkeep : ∀ {s j} i, P j s → P j (step s i)) {l : List ι} {i : ι}
    (hi : i ∈ l) (s : σ) : P i (l.foldl step s) := by
  induction l generalizing s with
  | nil => cases hi
  | cons a rest ih =>
    rcases List.mem_cons.1 hi with rfl | hi
    · rw [List.foldl_cons]
      exact List.foldlRecOn (motive := P i) rest step (hself s i) fun _ h j _ => hkeep j h
    · exact ih hi (step s a)

/-! ### Settled and current graphs -/

/-- All nodes are settled. -/
def Graph.Settled (g : Graph) : Prop :=
  ∀ (i : Nat) n, g.nodes[i]? = some n → n.Settled

/-- All nodes show the results for their inputs. -/
def Graph.Current (g : Graph) : Prop :=
  ∀ (i : Nat) n, g.nodes[i]? = some n → n.Current

/-- No disabled node shows anything. -/
def Graph.Dark (g : Graph) : Prop :=
  ∀ (i : Nat) n, g.nodes[i]? = some n → n.Dark

theorem Graph.Fresh.dark {g : Graph} (h : g.Fresh) : g.Dark :=
  fun i n hn _ => (h.nodes i n hn).outputAt_eq

section Priming

variable {H : Type} [Host H] {ctx : LoadContext}

/-- A node that has been evaluated shows the result for its inputs. -/
theorem Stage.EvaluateOutcome.current {s : Stage H} {i : Nat} {trigger : Trigger}
    {o : Stage H × List PortRef} (ho : s.EvaluateOutcome ctx i trigger o) :
    ∀ n, o.1.graph.nodes[i]? = some n → n.Current := by
  intro n hn
  cases ho with
  | missing hnone => cases hnone.symm.trans hn
  | failed hn' hreact =>
    cases hn'.symm.trans hn
    exact Node.current_of_react_eq_error hreact
  | reacted hn' hreact =>
    rw [Stage.react, Graph.getElem?_replace_self hn'] at hn
    cases hn
    exact Node.current_after hreact rfl

namespace Runner

/-- A node that has been seen to after a load shows the result for its inputs. -/
theorem PrimeOutcome.current {r : Runner} {w : World H} {i : Nat} {o : Runner × World H}
    (ho : r.PrimeOutcome ctx w i o) : ∀ n, o.1.graph.nodes[i]? = some n → n.Current := by
  cases ho with
  | skipped hskipped =>
    intro n hn henabled value hvalue
    exact (hskipped n hn henabled (Behavior.inputBridge?_of_result? hvalue)).elim
  | evaluated =>
    have hcurrent := (Stage.evaluate_outcome ctx ⟨r.graph, w⟩ i .inputs).current
    exact (along_pass _ _ _).step.forall_node (fun hstep h => h.step hstep) hcurrent

theorem current_prime (ctx : LoadContext) (r : Runner) (w : World H) :
    (r.prime ctx w).1.graph.Current := by
  intro i n hn
  have hi : i < r.graph.nodes.size := by
    rw [← (along_prime ctx r w).size_eq]
    exact Graph.lt_size_of_getElem? hn
  -- the evaluation of node `i` sets its output, and nothing that happens later spoils it
  refine forall_mem_foldl (P := fun i (state : Runner × World H) =>
    ∀ n, state.1.graph.nodes[i]? = some n → n.Current) ?_ ?_ (List.mem_range.2 hi) (r, w) n hn
  · exact fun state i => (primeNode_outcome ctx state.1 state.2 i).current
  · intro state j i hj
    have halong := (primeNode_outcome ctx state.1 state.2 i).along.step
    exact halong.forall_node (fun hstep h => h.step hstep) hj

end Runner

namespace Engine

variable {e : Engine H}

/-- After a load, all nodes show the results for their inputs. -/
theorem current_install (e : Engine H) (c : Configuration) :
    (e.install c).2.AllRunners fun _ r => r.graph.Current := by
  intro i r hr
  obtain ⟨g, hg, -⟩ := runs_install e c i r hr
  have hi : i < (buildGraphs [] c.graphs).1.length := (List.getElem?_eq_some_iff.1 hg).1
  rw [install_eq] at hr
  -- priming graph `i` sets its outputs, and priming another one leaves it alone
  refine forall_mem_foldl (P := fun i (e : Engine H) =>
    e.AllRunners fun j r => j = i → r.graph.Current) ?_ ?_ (List.mem_range.2 hi) _ i r hr rfl
  · intro e i
    have hall : e.AllRunners fun _ _ => True := fun _ _ _ => trivial
    refine hall.update (fun {r} w _ _ => r.current_prime e.context w) ?_
    intro j r hij _ hji
    exact (hij hji.symm).elim
  · intro e j i hj
    refine hj.update ?_ fun _ h => h
    intro r w hr hij
    have halong := (Runner.along_prime e.context r w).step
    exact halong.forall_nodes (fun hstep h => h.step hstep) (hr hij)

end Engine

end Priming

/-! ### One graph -/

namespace Graph

/-- A graph without cycles and without a memory, in which every input has at most one link. -/
structure Combinational (g : Graph) : Prop where
  types : ∀ n ∈ g.nodes, n.ports.type.isCombinational = true
  acyclic : g.Acyclic
  targets : (g.links.map Link.target).Nodup

/-- The graph `g`, as it has been built, has become `g'` at work, and these are the last values of
the signals. -/
structure Realizes (g : Graph) (last : String → Option Value) (g' : Graph) : Prop where
  fresh : g.Fresh
  along : g.Along Node.Step g'
  coherent : g'.Coherent
  settled : g'.Settled
  dark : g'.Dark
  shows : g'.Shows fun i => (g.signal? i).bind last

variable {g g' : Graph} {last : String → Option Value}

/-- The only link of an input is the only one that counts. -/
theorem Combinational.sole (hg : g.Combinational) {l : Link} (hl : l ∈ g.links) : g.Sole l := by
  refine ⟨hl, fun l' hl' htarget => ?_⟩
  rw [List.inj_on_of_nodup_map hg.targets hl' hl htarget]

namespace Realizes

/-- An input holds what drives it, if that denotes what it shows. -/
theorem input_same (h : g.Realizes last g') (hg : g.Combinational) {j : Nat}
    (ih : ∀ i, g.Feeds i j → ∀ port, g'.HasOutput ⟨i, port⟩ →
      (g'.outputAt ⟨i, port⟩).same (g.denotation last i) = true) (port : Nat) :
    (g'.inputAt ⟨j, port⟩).same (match g.driver? ⟨j, port⟩ with
      | some source => g.denotation last source.node
      | none => .null) = true := by
  have hlinks := h.along.links_eq
  cases hdriver : g.driver? ⟨j, port⟩ with
  | none =>
    have hnull : g'.inputAt ⟨j, port⟩ = .null := by
      refine h.coherent.unlinked _ ?_
      rw [hlinks]
      exact ne_of_driver?_eq_none hdriver
    rw [hnull]
    rfl
  | some source =>
    have hmem := mem_links_of_driver? hdriver
    have hwire := h.coherent.wire ⟨source, ⟨j, port⟩⟩ ((sole_congr hlinks).2 (hg.sole hmem))
    have hsource : g'.HasOutput source :=
      h.along.hasOutput h.fresh.sound.fits (h.fresh.sound.source _ hmem)
    exact Value.same_trans hwire (ih source.node (feeds_of_driver? hdriver) source.port hsource)

/-- What a node at work shares with the node that was built. -/
theorem eq_of_origin (h : g.Realizes last g') {j : Nat} {n n' : Node} (hn : g.nodes[j]? = some n)
    (hn' : g'.nodes[j]? = some n') : n'.enabled = n.enabled ∧
      n'.behavior.parameters = n.behavior.parameters ∧
      n'.ports.outputs.length = n.behavior.outputCount := by
  have hplan := h.along.plan_eq hn hn'
  have hparameters : n'.behavior.parameters = n.behavior.parameters :=
    congrArg Node.Plan.parameters hplan
  have hfits := (h.along.sound h.fresh.sound).fits j n' hn'
  refine ⟨congrArg Node.Plan.enabled hplan, hparameters, ?_⟩
  rw [hfits.outputs, ← Behavior.outputCount_parameters, hparameters,
    Behavior.outputCount_parameters]

/-- Every output of an enabled node shows what the node means, if its inputs hold what drives
them. -/
theorem output_same_meaning (h : g.Realizes last g') (hg : g.Combinational) {j port : Nat}
    {n n' : Node} (hn : g.nodes[j]? = some n) (hn' : g'.nodes[j]? = some n')
    (henabled : n.enabled = true) (hport : port < n'.ports.outputs.length) {input : Nat → Value}
    (hinput : ∀ port, (n'.ports.inputAt port).same (input port) = true) :
    (n'.ports.outputAt port).same (n.behavior.meaning last input) = true := by
  obtain ⟨henabled', hparameters, hcount⟩ := h.eq_of_origin hn hn'
  rw [henabled] at henabled'
  obtain ⟨p, hp⟩ := (h.fresh.nodes j n hn).exists_params
  have htype := hg.types n (Array.mem_of_getElem? hn)
  rcases Behavior.combinational_cases hp htype with ⟨b, hbridge⟩ | hcombine | hnone
  · -- an input bridge shows the last value of its signal
    have hbridge' : n'.behavior.inputBridge? = some b := by
      rw [← Behavior.inputBridge?_parameters, hparameters, Behavior.inputBridge?_parameters,
        hbridge]
    have hshows := (h.shows j n' hn').output b henabled' hbridge'
    have hsignal : g.signal? j = some b.signal := by
      rw [signal?, hn, Option.bind_some, Node.signal?_eq_some henabled hbridge]
    rw [Behavior.outputCount_of_inputBridge? hbridge] at hcount
    obtain rfl : port = 0 := by omega
    rw [Behavior.meaning, hbridge]
    dsimp only at hshows ⊢
    rwa [hsignal, Option.bind_some] at hshows
  · -- the node has computed its output from the inputs it holds
    obtain ⟨value, hvalue⟩ := hcombine n'.ports.inputAt
    have hvalue' : n'.behavior.combine? n'.ports.inputAt = some value := by
      rw [← Behavior.combine?_parameters, hparameters, Behavior.combine?_parameters, hvalue]
    have houtputs := h.settled j n' hn' henabled' value hvalue'
    rw [houtputs, List.length_singleton] at hport
    obtain rfl : port = 0 := by omega
    obtain ⟨value', hmeans, hsame⟩ := Behavior.combine?_congr hinput hvalue
    rw [Behavior.meaning, Behavior.inputBridge?_of_combine? hvalue, Ports.outputAt, houtputs]
    dsimp only
    rw [hmeans]
    exact hsame
  · -- an output bridge has no output
    rw [hcount, hnone] at hport
    cases hport

/-- Every output shows what its node denotes. -/
theorem output_same (h : g.Realizes last g') (hg : g.Combinational) (j : Nat) :
    ∀ port, g'.HasOutput ⟨j, port⟩ →
      (g'.outputAt ⟨j, port⟩).same (g.denotation last j) = true := by
  refine hg.acyclic.induct h.fresh.sound (P := fun j => ∀ port, g'.HasOutput ⟨j, port⟩ →
    (g'.outputAt ⟨j, port⟩).same (g.denotation last j) = true) (fun j ih port hport => ?_) j
  obtain ⟨n', hn', hport⟩ := hport
  obtain ⟨n, hn, -⟩ := h.along.exists_origin hn'
  rw [denotation_eq hg.acyclic h.fresh.sound, meaning, hn, outputAt_eq hn']
  dsimp only at hn' ⊢
  split
  · next henabled =>
    have hinput := h.input_same hg ih
    simp only [inputAt_eq (p := ⟨j, _⟩) hn'] at hinput
    exact h.output_same_meaning hg hn hn' henabled hport hinput
  · next hdisabled =>
    -- a disabled node denotes `null`, and shows it
    rw [Bool.not_eq_true, ← (h.eq_of_origin hn hn').1] at hdisabled
    rw [h.dark j n' hn' hdisabled]
    rfl

end Realizes

end Graph

/-! ### Runs -/

namespace Engine

/-- A run since the last load. -/
structure Session (H : Type) [Host H] (c : Configuration) where
  /-- The engine before the load. -/
  before : Engine H
  /-- What has happened since. -/
  actions : List (Action H)
  not_install : ∀ a ∈ actions, ∀ c', a ≠ .install c'

namespace Session

variable {H K : Type} [Host H] [Host K] {c : Configuration}

/-- The state at the end. -/
def engine (s : Session H c) : Engine H :=
  (s.before.install c).2.run s.actions

/-- The changes that have been delivered. -/
def log (s : Session H c) : List Change :=
  s.before.initialChanges c ++ (s.before.install c).2.delivered s.actions

/-- The last value delivered for each signal. -/
def last (s : Session H c) : String → Option Value :=
  lastValues s.log

/-- Every state in which graphs run is the end of a run since a load. -/
theorem exists_of_reachable {e : Engine H} (h : Reachable e) {i : Nat} {r : Runner}
    (hr : e.runners[i]? = some r) : ∃ c, ∃ s : Session H c, s.engine = e := by
  induction h generalizing i r with
  | fresh h =>
    rw [h.runners] at hr
    cases hr
  | @act e a _ ih =>
    by_cases ha : ∃ c, a = .install c
    · obtain ⟨c, rfl⟩ := ha
      exact ⟨c, ⟨e, [], fun _ hmem => nomatch hmem⟩, rfl⟩
    have hinstall : ∀ c, a ≠ .install c := fun c heq => ha ⟨c, heq⟩
    by_cases hsession : ∃ c, ∃ s : Session H c, s.engine = e
    · obtain ⟨c, s, rfl⟩ := hsession
      refine ⟨c, ⟨s.before, s.actions ++ [a], fun b hb => ?_⟩, run_append _ _ _⟩
      rcases List.mem_append.1 hb with hb | hb
      · exact s.not_install b hb
      · rw [List.mem_singleton.1 hb]
        exact hinstall
    · -- no graph was running, and none has been loaded
      have hnone : e.AllRunners fun _ _ => False := fun j r' hr' => hsession (ih hr')
      exact (hnone.act (fun _ => Runner.kept_const False) hinstall i r hr).elim

theorem tracks (s : Session H c) : Tracks (buildGraphs [] c.graphs).1 s.last s.engine := by
  rw [last, lastValues, log, List.foldl_append]
  exact (tracks_install s.before c).run s.not_install

/-- Every running graph realizes the graph that was built. -/
theorem realizes (s : Session H c) {i : Nat} {r : Runner} (hr : s.engine.runners[i]? = some r)
    (hzero : r.truncatedPasses = 0) {g : Graph} (hg : (buildGraphs [] c.graphs).1[i]? = some g) :
    g.Realizes s.last r.graph := by
  have hfresh := (fresh_of_mem_buildGraphs (List.mem_of_getElem? hg)).1
  have hruns := (runs_install s.before c).run (kept_runs c) s.not_install
  have hcoherent := (coherent_install s.before c).run (fun _ => Runner.kept_coherent H)
    s.not_install
  have hcurrent := (current_install s.before c).run
    (fun _ => Runner.kept_nodes fun hstep h => h.step hstep) s.not_install
  have hdark : s.engine.AllRunners fun _ r => r.graph.Dark := by
    have hkept : Runner.Kept H fun r => r.graph.Dark :=
      Runner.kept_nodes fun hstep h => h.step hstep
    refine AllRunners.run (fun _ => hkept) s.not_install (.install (fun _ => hkept) ?_)
    intro j g hg
    exact (fresh_of_mem_buildGraphs (List.mem_of_getElem? hg)).1.dark
  obtain ⟨g', hg', halong⟩ := hruns i r hr
  obtain rfl : g = g' := Option.some.inj (hg.symm.trans hg')
  refine ⟨hfresh, halong, (hcoherent i r hr).coherent hzero,
    fun j n hn => (hcurrent i r hr j n hn).settled, hdark i r hr, ?_⟩
  have hshows := s.tracks.shows i r hr
  simp only [heard, signalOf?, hg, Option.bind_some] at hshows
  exact hshows

/-- In every state after a load, the outputs of a combinational graph are the same as its denotation
at the last values delivered, unless a pass has been cut short. So two runs of one configuration
that end with the same last values of the signals that the graph shows end with the same outputs. -/
theorem outputs_same {i : Nat} {g : Graph} (hg : (buildGraphs [] c.graphs).1[i]? = some g)
    (hcombinational : g.Combinational) :
    (∀ (s : Session H c) r, s.engine.runners[i]? = some r → r.truncatedPasses = 0 →
      ∀ p, g.HasOutput p → (r.graph.outputAt p).same (g.denotation s.last p.node) = true) ∧
    ∀ (s : Session H c) (s' : Session K c) r r', s.engine.runners[i]? = some r →
      s'.engine.runners[i]? = some r' → r.truncatedPasses = 0 → r'.truncatedPasses = 0 →
      (∀ j signal, g.signal? j = some signal → s.last signal = s'.last signal) →
      ∀ p, g.HasOutput p → (r.graph.outputAt p).same (r'.graph.outputAt p) = true := by
  have hdenotes : ∀ {L : Type} [Host L] (s : Session L c) r, s.engine.runners[i]? = some r →
      r.truncatedPasses = 0 → ∀ p, g.HasOutput p →
      (r.graph.outputAt p).same (g.denotation s.last p.node) = true := by
    intro L _ s r hr hzero p hp
    have hrealizes := s.realizes hr hzero hg
    have hp' := hrealizes.along.hasOutput hrealizes.fresh.sound.fits hp
    exact hrealizes.output_same hcombinational p.node p.port hp'
  refine ⟨hdenotes, fun s s' r r' hr hr' hzero hzero' hlast p hp => ?_⟩
  have hsame := hdenotes s r hr hzero p hp
  have hsame' := hdenotes s' r' hr' hzero' p hp
  rw [Graph.denotation_congr hlast] at hsame
  exact Value.same_trans hsame (Value.same_symm hsame')

/-- A bridge feeds a negation. -/
def inverted : Configuration :=
  { graphs := [{
      id := "g"
      nodes := [{ id := "a", typeName := "dp_in", params := [("dp", .str "x")] },
        { id := "b", typeName := "not" }]
      links := [⟨⟨"a", "out"⟩, ⟨"b", "in"⟩⟩] }] }

/-- The signal `x` takes these values one after the other. -/
def values (levels : List Bool) : Session MemoryHost inverted where
  before := new default { start := default }
  actions := levels.flatMap fun level => [.post (.change ⟨"x", .bool level⟩), .turn]
  not_install := by
    intro a ha c' hinstall
    obtain ⟨level, -, hmem⟩ := List.mem_flatMap.1 ha
    subst hinstall
    simp at hmem

/-- The bridge and the negation, as they are built. -/
def invertedGraph : Graph :=
  ((buildGraphs [] inverted.graphs).1[0]?).getD default

/-- The bridge and the negation at the end of a run. -/
def invertedRunner (levels : List Bool) : Runner :=
  ((values levels).engine.runners[0]?).getD default

/-- A signal that is true in the end is negated, whatever it was before. -/
theorem outputs_same_inverted :
    ((invertedRunner [false, true]).graph.outputAt ⟨1, 0⟩).same (.bool false) = true ∧
      ((invertedRunner [false, true]).graph.outputAt ⟨1, 0⟩).same
        ((invertedRunner [true]).graph.outputAt ⟨1, 0⟩) = true := by
  have hg : (buildGraphs [] inverted.graphs).1[0]? = some invertedGraph :=
    (Option.getD_of_ne_none (by decide +kernel) default).symm
  have hr : ∀ levels, (values levels).engine.runners[0]? ≠ none →
      (values levels).engine.runners[0]? = some (invertedRunner levels) :=
    fun levels hsome => (Option.getD_of_ne_none hsome default).symm
  have hcombinational : invertedGraph.Combinational :=
    ⟨by decide +kernel, Graph.acyclic_of_lt (by decide +kernel), by decide +kernel⟩
  have hnode : invertedGraph.nodes[1]? = some (invertedGraph.nodes[1]?.getD default) :=
    (Option.getD_of_ne_none (by decide +kernel) default).symm
  have houtput : invertedGraph.HasOutput ⟨1, 0⟩ := ⟨_, hnode, by decide +kernel⟩
  have hlog : (values [false, true]).log = [⟨"x", .bool false⟩, ⟨"x", .bool true⟩] := by
    with_unfolding_all rfl
  have hlog' : (values [true]).log = [⟨"x", .bool true⟩] := by
    with_unfolding_all rfl
  -- both runs end with the same last value of `x`, though one has seen another value before
  have hlast : ∀ j signal, invertedGraph.signal? j = some signal →
      (values [false, true]).last signal = (values [true]).last signal := by
    intro _ signal _
    rw [last, last, hlog, hlog']
    simp [lastValues, remember, Function.update_apply]
  have hrunner := hr [false, true] (by decide +kernel)
  have hrunner' := hr [true] (by decide +kernel)
  obtain ⟨hdenotes, hsame⟩ := outputs_same (H := MemoryHost) (K := MemoryHost) hg hcombinational
  constructor
  · have hdenoted := hdenotes _ _ hrunner (by decide +kernel) _ houtput
    have hfalse :
        (invertedGraph.denotation (values [false, true]).last 1).same (.bool false) = true :=
      by decide +kernel
    exact Value.same_trans hdenoted hfalse
  · exact hsame _ _ _ _ hrunner hrunner' (by decide +kernel) (by decide +kernel) hlast _ houtput

end Session

end Engine

end SignalGraph
