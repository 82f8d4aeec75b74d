import SignalGraph.Proofs.Engine.Chronicle

/-!
# Priming

A load evaluates every node that is enabled, unless it is an input bridge. So something has happened
to such a node ever since (`Engine.history_ne_nil`).
-/

namespace SignalGraph

/-- What is noted down at one step is noted down along the fold. -/
theorem exists_foldNotes_subset {σ α β : Type} (f : σ → α → σ) (note : σ → α → List β) (s : σ)
    {l : List α} {a : α} (ha : a ∈ l) : ∃ before after, l = before ++ a :: after ∧
      note (before.foldl f s) a ⊆ foldNotes f note s l := by
  obtain ⟨before, after, rfl⟩ := List.append_of_mem ha
  refine ⟨before, after, rfl, fun b hb => ?_⟩
  rw [foldNotes_append, foldNotes]
  exact List.mem_append_right _ (List.mem_append_left _ hb)

variable {H : Type} [Host H]

namespace Runner

variable (ctx : LoadContext) {r : Runner} {j : Nat} {n : Node}

/-- Priming a graph reaches every enabled node that is not an input bridge. -/
theorem exists_primed (w : World H) (hn : r.graph.nodes[j]? = some n) (henabled : n.enabled = true)
    (hbridge : n.behavior.inputBridge? = none) : ∃ ep, (j, ep) ∈ r.course ctx w .prime := by
  have hj : j ∈ List.range r.graph.nodes.size := List.mem_range.2 (Graph.lt_size_of_getElem? hn)
  obtain ⟨before, after, -, hsubset⟩ :=
    exists_foldNotes_subset (primeNode ctx) (primingCourse ctx) (r, w) hj
  -- the nodes that are primed earlier may have evaluated this one, but they leave its plan alone
  obtain ⟨m, hm, hlives⟩ := (lives_primeAll r w before).exists_node hn
  have hprimed : (m.enabled && m.behavior.inputBridge?.isNone) = true := by
    rw [hlives.enabled_eq, henabled, hlives.inputBridge?_eq, hbridge]
    rfl
  generalize before.foldl (primeNode ctx) (r, w) = state at hm hsubset
  have hcourse : primingCourse ctx state j =
      (⟨state.1.graph, state.2⟩ : Stage H).evaluationCourse ctx j .primed .inputs := by
    rw [primingCourse, hm]
    exact if_pos hprimed
  rw [hcourse] at hsubset
  exact ⟨_, hsubset List.mem_cons_self⟩

end Runner

namespace Engine

omit [Host H] in
theorem history_ne_nil_of_mem {i j : Nat} {ep : Episode} {entries : List Entry}
    (h : ⟨i, j, ep⟩ ∈ entries) : history i j entries ≠ [] := by
  have hmem : ep ∈ history i j entries := List.mem_filterMap.2 ⟨_, h, if_pos ⟨rfl, rfl⟩⟩
  exact List.ne_nil_of_mem hmem

/-- Something has happened to every enabled node that is not an input bridge since the load. -/
theorem history_ne_nil (e : Engine H) (c : Configuration) {as : List (Action H)}
    (has : ∀ a ∈ as, ∀ c, a ≠ .install c) {i j : Nat} {r : Runner} {n : Node}
    (hr : (e.run (.install c :: as)).runners[i]? = some r) (hn : r.graph.nodes[j]? = some n)
    (henabled : n.enabled = true) (hbridge : n.behavior.inputBridge? = none) :
    history i j (e.chronicle (.install c :: as)) ≠ [] := by
  obtain ⟨g, -, hg, -⟩ := lives_of_run e c has hr hn
  set graphs := (buildGraphs [] c.graphs).1
  set connected := (subscriberTable graphs).foldl connect (e.assemble c)
  have hjob : (⟨i, .prime⟩ : Job) ∈ primings graphs.length :=
    List.mem_map.2 ⟨i, List.mem_range.2 (List.getElem?_eq_some_iff.1 hg).1, rfl⟩
  obtain ⟨before, after, hprimings, hsubset⟩ :=
    exists_foldNotes_subset Engine.perform jobCourse connected hjob
  -- the node as it is when its graph is about to be primed
  set e₀ := before.foldl Engine.perform connected with he₀
  have hinstalled : (e.install c).2 = (⟨i, .prime⟩ :: after).foldl Engine.perform e₀ := by
    rw [install_eq, primeAll_eq_jobs, he₀, ← List.foldl_append, ← hprimings]
  have hprimed := Lives.performAll e₀ (⟨i, .prime⟩ :: after)
  rw [← hinstalled] at hprimed
  obtain ⟨r₀, hr₀, hgraph⟩ := hprimed.trans (Lives.run (e.install c).2 has) i r hr
  obtain ⟨n₀, hn₀, hnode⟩ := hgraph.exists_origin hn
  obtain ⟨ep, hep⟩ := Runner.exists_primed e₀.context e₀.world hn₀
    (hnode.enabled_eq.symm.trans henabled) (hnode.inputBridge?_eq.symm.trans hbridge)
  have hentry : (⟨i, j, ep⟩ : Entry) ∈ e₀.jobCourse ⟨i, .prime⟩ := by
    rw [jobCourse, hr₀]
    exact List.mem_map.2 ⟨(j, ep), hep, rfl⟩
  exact history_ne_nil_of_mem
    (List.mem_append_left _ (List.mem_append_right _ (hsubset hentry)))

end Engine

end SignalGraph
