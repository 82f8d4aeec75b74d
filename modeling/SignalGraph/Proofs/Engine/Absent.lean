import SignalGraph.Proofs.Engine.Without
import SignalGraph.Proofs.Node.Combinational

/-!
# Disabled nodes are as good as absent

A configuration with a disabled node and the one without it and without the links that touch it are
loaded alike, and so are the requests served that follow (`Engine.disabled_absent`), as long as no
pass of its graph is cut short: deliveries to the disabled node count as steps of a pass.
-/

namespace SignalGraph

/-! ### Configurations without a node -/

/-- The configuration without a node of one of its graphs, and without the links that touch it. -/
def Configuration.without (c : Configuration) (graph : Nat) (node : String) : Configuration :=
  { c with graphs := c.graphs.modify graph (GraphDecl.without node) }

theorem any_take_modify {α : Type} {f : α → α} {p : α → Bool} (h : ∀ a, p (f a) = p a) (l : List α)
    (i j : Nat) : ((l.modify i f).take j).any p = (l.take j).any p := by
  have hmap : (l.modify i f).map p = l.map p := by
    refine List.ext_getElem? fun k => ?_
    rw [List.getElem?_map, List.getElem?_map, List.getElem?_modify]
    cases l[k]? with
    | none => rfl
    | some a => by_cases hik : i = k <;> simp [hik, h a]
  have hany (l : List α) : (l.take j).any p = ((l.map p).take j).any fun b => b := by
    rw [← List.map_take, List.any_map]
    rfl
  rw [hany, hany, hmap]

namespace Configuration

variable {c : Configuration} {i : Nat} {d : GraphDecl}

theorem leads_without (c : Configuration) (i : Nat) (id : String) :
    GraphDecl.leads (c.without i id).graphs = GraphDecl.leads c.graphs := by
  funext entry
  exact congrArg (entry.1.enabled && !·)
    (any_take_modify (f := GraphDecl.without id) (fun _ => rfl) c.graphs i entry.2)

/-- The same declarations run, one of them without the node if it runs at all. -/
theorem running_without (hd : c.graphs[i]? = some d) (id : String) :
    GraphDecl.leads c.graphs (d, i) = false ∧ (c.without i id).running = c.running ∨
      GraphDecl.leads c.graphs (d, i) = true ∧ ∃ m : Nat, c.running[m]? = some d ∧
        (c.without i id).running = c.running.set m (d.without id) := by
  obtain ⟨before, d', after, hgraphs, hlength, hwithout⟩ :=
    List.exists_of_modify (GraphDecl.without id) (List.getElem?_eq_some_iff.1 hd).1
  obtain rfl : d = d' := by
    rw [hgraphs, ← hlength, List.getElem?_append_right (Nat.le_refl _), Nat.sub_self] at hd
    exact (Option.some.inj hd).symm
  -- the other declarations run with the node if and only if they run without it
  let p := GraphDecl.leads c.graphs
  let earlier := (before.zipIdx.filter p).map Prod.fst
  let later := ((after.zipIdx (i + 1)).filter p).map Prod.fst
  have hsplit (d : GraphDecl) : ((before ++ d :: after).zipIdx.filter p).map Prod.fst =
      earlier ++ (if p (d, i) then d :: later else later) := by
    rw [List.zipIdx_append, List.zipIdx_cons, Nat.zero_add, hlength, List.filter_append,
      List.filter_cons, List.map_append]
    split <;> rfl
  have hrunning : c.running = earlier ++ (if p (d, i) then d :: later else later) := by
    rw [← hsplit, ← hgraphs]
    rfl
  have hrunning' : (c.without i id).running =
      earlier ++ (if p (d, i) then d.without id :: later else later) := by
    rw [running, leads_without, without, hwithout]
    exact hsplit (d.without id)
  rw [hrunning, hrunning']
  cases hleads : p (d, i) with
  | false => exact .inl ⟨hleads, rfl⟩
  | true => exact .inr ⟨hleads, earlier.length, by simp, by simp⟩

end Configuration

namespace Engine

section Built

variable {c : Configuration} {i : Nat} {d : GraphDecl} {nd : NodeDecl}

/-- The same graphs are built, up to a dormant node of the one that was declared with it. -/
theorem buildGraphs_without (hd : c.graphs[i]? = some d) (hids : (d.nodes.map NodeDecl.id).Nodup)
    (hnd : nd ∈ d.nodes) (hdisabled : nd.enabled = false) :
    (buildGraphs [] (c.without i nd.id).graphs).1 = (buildGraphs [] c.graphs).1 ∨
      GraphDecl.leads c.graphs (d, i) = true ∧ ∃ m k n,
        (buildGraphs [] c.graphs).1[m]? = some (Graph.build d).1 ∧
        (Graph.build d).1.nodes[k]? = some n ∧ n.id = nd.id ∧
        ErasedAt m k (buildGraphs [] c.graphs).1 (buildGraphs [] (c.without i nd.id).graphs).1 := by
  rw [buildGraphs_running, buildGraphs_running]
  rcases Configuration.running_without hd nd.id with ⟨-, hrunning⟩ | ⟨hleads, m, hm, hrunning⟩
  · exact .inl (congrArg _ hrunning)
  · have hbuilt : (c.running.map fun d => (Graph.build d).1)[m]? = some (Graph.build d).1 := by
      rw [List.getElem?_map, hm, Option.map_some]
    rw [hrunning, List.map_set]
    rcases Graph.build_without hids hnd with hsame | ⟨k, n, hbuild, hn, herase⟩
    · left
      obtain ⟨hlt, hget⟩ := List.getElem?_eq_some_iff.1 hbuilt
      rw [hsame, ← hget, List.set_getElem_self]
    · right
      obtain ⟨hfresh, hid⟩ := NodeDecl.fresh_of_build hbuild
      have hdisabled' : n.enabled = false := (NodeDecl.enabled_of_build hbuild).trans hdisabled
      rw [herase]
      exact ⟨hleads, m, k, n, hbuilt, hn, hid, erasedAt_set hbuilt
        ⟨(Graph.fresh_build d).sound.nodup_ids, n, hn, hdisabled', hfresh.timers⟩⟩

end Built

/-! ### What is seen of an engine -/

variable {H : Type}

/-- A node of a running graph, by its id. -/
def node? (e : Engine H) (graph node : String) : Option Node :=
  (e.runner? graph).bind fun r => r.graph.node? node

/-- A running graph with the id of a declaration that runs has come from it. -/
theorem Runs.along_build {c : Configuration} {e : Engine H} {d : GraphDecl} {r : Runner}
    (h : Runs c e) (hd : d ∈ c.running) (hr : e.runner? d.id = some r) :
    (Graph.build d).1.Along Node.Step r.graph := by
  obtain ⟨m, hbuilt⟩ := exists_build_of_mem_running hd
  obtain ⟨hid, j, hj⟩ := exists_of_find?_beq hr
  obtain ⟨g, hg, halong⟩ := h j r hj
  have hid' : g.id = (Graph.build d).1.id := by
    rw [Graph.id_build, ← halong.id_eq, hid]
  obtain rfl := eq_of_id_eq_buildGraphs hg hbuilt hid'
  cases hg.symm.trans hbuilt
  exact halong

/-- A disabled node of a running graph shows nothing and holds no timer. -/
theorem Runs.still {c : Configuration} {e : Engine H} {d : GraphDecl} {nd : NodeDecl} {n : Node}
    (h : Runs c e) (hd : d ∈ c.running) (hids : (d.nodes.map NodeDecl.id).Nodup)
    (hnd : nd ∈ d.nodes) (hdisabled : nd.enabled = false) (hn : e.node? d.id nd.id = some n) :
    n.timers = [] ∧ ∀ port, n.ports.outputAt port = .null := by
  obtain ⟨r, hr, hnode⟩ := Option.bind_eq_some_iff.1 hn
  have halong := h.along_build hd hr
  obtain ⟨hid, k, hk⟩ := exists_of_find?_beq hnode
  have hstill : n.Dormant ∧ n.Dark := by
    refine halong.forall_node (P := fun n => n.Dormant ∧ n.Dark)
      (fun hstep h => ⟨h.1.step hstep, h.2.step hstep⟩) (fun n₀ hn₀ => ?_) n hk
    -- the node was declared, and no other declaration has its id
    obtain ⟨nd', hnd', hbuild⟩ := Graph.exists_decl_of_build hn₀
    obtain ⟨hfresh, hid₀⟩ := NodeDecl.fresh_of_build hbuild
    have hid' : nd'.id = nd.id := by
      rw [← hid₀, ← hid]
      exact congrArg Node.Plan.id (halong.plan_eq hn₀ hk).symm
    obtain rfl := List.inj_on_of_nodup_map hids hnd' hnd hid'
    exact ⟨⟨(NodeDecl.enabled_of_build hbuild).trans hdisabled, hfresh.timers⟩,
      fun _ => hfresh.outputAt_eq⟩
  exact ⟨hstill.1.timers, hstill.2 hstill.1.disabled⟩

variable [Host H]

/-- What can be seen of the second engine, now or after another load, can be seen of the first one,
apart from one node of one graph. -/
structure SameBut (graph node : String) (e e' : Engine H) : Prop where
  /-- Hence a host that logs the calls to it has the same log. -/
  world_eq : e'.world = e.world
  signals_eq : e'.subscribedSignals = e.subscribedSignals
  runner_eq : ∀ id, id ≠ graph → e'.runner? id = e.runner? id
  node_eq : ∀ id, id ≠ node → e'.node? graph id = e.node? graph id
  stop_eq : e'.stop = e.stop
  load_eq : ∀ limit c, e'.load limit c = e.load limit c

theorem SameBut.refl (graph node : String) (e : Engine H) : e.SameBut graph node e :=
  ⟨rfl, rfl, fun _ _ => rfl, fun _ _ => rfl, rfl, fun _ _ => rfl⟩

theorem Without.sameBut {m k : Nat} {e e' : Engine H} {r : Runner} {n : Node}
    (h : Without m k e e') (hr : e.runners[m]? = some r) (hn : r.graph.nodes[k]? = some n) :
    e.SameBut r.graph.id n.id e' where
  world_eq := h.world_eq
  signals_eq := by
    rw [subscribedSignals, subscribedSignals, h.subscribers_eq, raiseTable,
      Dictionary.keys_mapValues]
  runner_eq id hid := by
    rw [runner?_eq, runner?_eq, h.findIdx?_eq]
    cases hindex : e.runners.findIdx? fun r => r.graph.id == id with
    | none => rfl
    | some i =>
      -- it is not the graph with the node, which has another id
      refine h.others i ?_
      rintro rfl
      exact hid (eq_of_findIdx?_beq hindex hr).symm
  node_eq id hid := by
    rw [node?, node?, runner?_eq, runner?_eq, h.findIdx?_eq]
    cases e.runners.findIdx? fun r' => r'.graph.id == r.graph.id with
    | none => rfl
    | some i =>
      rw [Option.bind_some, Option.bind_some]
      by_cases hi : i = m
      · obtain ⟨r₁, r', hr₁, hr', herased⟩ := h.own
        obtain rfl := Option.some.inj (hr.symm.trans hr₁)
        rw [hi, hr, hr', Option.bind_some, Option.bind_some, herased.graph_eq]
        exact Graph.node?_erase hn (Ne.symm hid)
      · rw [h.others i hi]
  stop_eq := by
    rw [stop, stop, h.teardown_eq]
  load_eq limit c := by
    rw [load, load, install, install, h.teardown_eq]

/-! ### Loads and requests after them -/

variable {c : Configuration} {i : Nat} {d : GraphDecl} {nd : NodeDecl} {e e₁ : Engine H}
  {limit : Nat} {requests : List (Request H)}

/-- After a load and requests that load nothing, the graphs of the configuration run. -/
theorem runs_of_serveAll (hrequests : ∀ request ∈ requests, ∀ c, request ≠ .load c)
    (hserve : e.serveAll limit (.load c :: requests) = some e₁) : Runs c e₁ := by
  obtain ⟨as, hactions, has⟩ := exists_actionsAll hserve hrequests
  rw [← run_actionsAll hserve, hactions]
  exact AllRunners.run (e := (e.install c).2) (kept_runs c) has (runs_install e c)

/-- A disabled node is as good as absent. From any state, a configuration with it and the one
without it and without the links that touch it are loaded, and requests after that are served, with
the same effect on everything but the node, as long as no pass of its graph is cut short. The node
itself shows nothing and holds no timer. -/
theorem disabled_absent (hd : c.graphs[i]? = some d) (hids : (d.nodes.map NodeDecl.id).Nodup)
    (hnd : nd ∈ d.nodes) (hdisabled : nd.enabled = false)
    (hrequests : ∀ request ∈ requests, (∀ c, request ≠ .load c) ∧ request ≠ .stop)
    (hserve : e.serveAll limit (.load c :: requests) = some e₁)
    (hwhole : GraphDecl.leads c.graphs (d, i) = true →
      ∀ r, e₁.runner? d.id = some r → r.truncatedPasses = 0) :
    ∃ e₂, e.serveAll limit (.load (c.without i nd.id) :: requests) = some e₂ ∧
      e₁.SameBut d.id nd.id e₂ ∧
      (GraphDecl.leads c.graphs (d, i) = false → e₂ = e₁) ∧
      (GraphDecl.leads c.graphs (d, i) = true → ∀ n, e₁.node? d.id nd.id = some n →
        n.timers = [] ∧ ∀ port, n.ports.outputAt port = .null) := by
  have hruns := runs_of_serveAll (fun request h => (hrequests request h).1) hserve
  have hstill (hleads : GraphDecl.leads c.graphs (d, i) = true) (n : Node)
      (hn : e₁.node? d.id nd.id = some n) : n.timers = [] ∧ ∀ port, n.ports.outputAt port = .null :=
    hruns.still (Configuration.mem_running hd hleads) hids hnd hdisabled hn
  rcases buildGraphs_without hd hids hnd hdisabled with
    hsame | ⟨hleads, m, k, n, hm, hn, hid, herased⟩
  · -- the node has been left out anyway, or its graph does not run
    have hinstall : (e.install (c.without i nd.id)).2 = (e.install c).2 := by
      rw [install_eq, install_eq, assemble, assemble, hsame]
      rfl
    rw [serveAll, serve_load, ← hinstall, ← serve_load] at hserve
    exact ⟨e₁, hserve, .refl .., fun _ => rfl, hstill⟩
  · have hbuilt {r : Runner} (hr : e₁.runners[m]? = some r) :
        (Graph.build d).1.Along Node.Step r.graph := by
      obtain ⟨g, hg, halong⟩ := hruns m r hr
      cases hm.symm.trans hg
      exact halong
    have hgraph {r : Runner} (hr : e₁.runners[m]? = some r) : r.graph.id = d.id :=
      (hbuilt hr).id_eq.trans (Graph.id_build d)
    rcases herased.serveAll rfl hrequests hserve with ⟨r, hr, hcut⟩ | ⟨e₂, hserve₂, hwithout⟩
    · exact (hcut (hwhole hleads r (hgraph hr ▸ hruns.runner?_id hr))).elim
    · -- graph number `m` still has its id, and so has its node `k`
      obtain ⟨r, -, hr, -⟩ := hwithout.own
      obtain ⟨n', hn', -⟩ := (hbuilt hr).exists_node hn
      have hid' : n'.id = nd.id :=
        (congrArg Node.Plan.id ((hbuilt hr).plan_eq hn hn') :).trans hid
      have hsame := hwithout.sameBut hr hn'
      rw [hgraph hr, hid'] at hsame
      refine ⟨e₂, hserve₂, hsame, fun hidle => ?_, hstill⟩
      cases hidle.symm.trans hleads

/-- A value that is written, with a disabled negation in between. -/
def bypassed : Configuration :=
  { graphs := [{
      id := "g"
      nodes := [{ id := "a", typeName := "dp_in", params := [("dp", .str "x")] },
        { id := "b", typeName := "not", enabled := false },
        { id := "c", typeName := "dp_out", params := [("dp", .str "y")] }]
      links := [⟨⟨"a", "out"⟩, ⟨"b", "in"⟩⟩, ⟨⟨"b", "out"⟩, ⟨"c", "in"⟩⟩,
        ⟨⟨"a", "out"⟩, ⟨"c", "in"⟩⟩] }] }

/-- A change reaches the second bridge with the negation and without it. -/
theorem disabled_absent_bypassed : ∃ e₁ e₂ : Engine MemoryHost,
    (new default { start := default }).serveAll 10
      [.load bypassed, .change ⟨"x", .bool true⟩] = some e₁ ∧
    (new default { start := default }).serveAll 10
      [.load (bypassed.without 0 "b"), .change ⟨"x", .bool true⟩] = some e₂ ∧
    e₁.SameBut "g" "b" e₂ ∧ (e₁.node? "g" "b").isSome = true ∧ (e₂.node? "g" "b").isSome = false ∧
    (e₁.input? "g" ⟨"c", "in"⟩).any (· matches .bool true) = true := by
  have hserved : ((new (default : MemoryHost) { start := default }).serveAll 10
      [.load bypassed, .change ⟨"x", .bool true⟩]).any (fun e =>
        ((e.runner? "g").all fun r => r.truncatedPasses = 0) && (e.node? "g" "b").isSome &&
          (e.input? "g" ⟨"c", "in"⟩).any (· matches .bool true)) = true := by decide +kernel
  have hwithout : ((new (default : MemoryHost) { start := default }).serveAll 10
      [.load (bypassed.without 0 "b"), .change ⟨"x", .bool true⟩]).any
        (fun e => !(e.node? "g" "b").isSome) = true := by decide +kernel
  obtain ⟨e₁, hserved, hsome⟩ := (Option.any_eq_true _ _).1 hserved
  rw [Bool.and_eq_true, Bool.and_eq_true] at hsome
  obtain ⟨⟨hwhole, hnode⟩, hinput⟩ := hsome
  have hwhole (r : Runner) (hr : e₁.runner? "g" = some r) : r.truncatedPasses = 0 := by
    rwa [hr, Option.all_some, decide_eq_true_eq] at hwhole
  have hnode₁ : bypassed.graphs[0].nodes[1] ∈ bypassed.graphs[0].nodes := List.getElem_mem _
  obtain ⟨e₂, hserved₂, hsame, -⟩ := disabled_absent (d := bypassed.graphs[0]) (i := 0) rfl
    (by decide) hnode₁ rfl (by simp) hserved fun _ => hwhole
  have hserved₂ : (new (default : MemoryHost) { start := default }).serveAll 10
      [.load (bypassed.without 0 "b"), .change ⟨"x", .bool true⟩] = some e₂ := hserved₂
  rw [hserved₂, Option.any_some, Bool.not_eq_true'] at hwithout
  exact ⟨e₁, e₂, hserved, hserved₂, hsame, hnode, hwithout, hinput⟩

end Engine

end SignalGraph
