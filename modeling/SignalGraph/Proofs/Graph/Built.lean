import SignalGraph.Engine.Basic
import SignalGraph.Proofs.Graph.Evolution

/-!
# Graphs that have been built

A graph that has been built is sound: no two nodes share an id, and every link that was kept ends at
ports that exist. All its ports are `null` and it has no timers (`Graph.fresh_build`). The graphs of
one configuration have different ids (`Engine.nodup_ids_buildGraphs`).
-/

namespace SignalGraph

/-- What holds of a node that has just been built. -/
structure Node.Fresh (n : Node) : Prop where
  fits : n.Fits
  exists_params : ∃ p, Behavior.ofParams n.ports.type p = .ok n.behavior
  ports : n.ports = .new n.ports.type
  timers : n.timers = []

/-- What holds of a graph that has just been built. -/
structure Graph.Fresh (g : Graph) : Prop where
  sound : g.Sound
  nodes : ∀ (i : Nat) n, g.nodes[i]? = some n → n.Fresh

theorem Node.Fresh.inputAt_eq {n : Node} (h : n.Fresh) (port : Nat) :
    n.ports.inputAt port = .null := by
  rw [h.ports, Ports.inputAt, Ports.new, List.getD_eq_getElem?_getD, List.getElem?_map]
  cases n.ports.type.inputs[port]? <;> rfl

theorem Node.Fresh.outputAt_eq {n : Node} (h : n.Fresh) (port : Nat) :
    n.ports.outputAt port = .null := by
  rw [h.ports, Ports.outputAt, Ports.new, List.getD_eq_getElem?_getD, List.getElem?_map]
  cases n.ports.type.outputs[port]? <;> rfl

/-- A node that has just been built is fresh and has the id of its declaration. -/
theorem NodeDecl.fresh_of_build {d : NodeDecl} {n : Node} (h : d.build = .ok n) :
    n.Fresh ∧ n.id = d.id := by
  unfold NodeDecl.build at h
  split at h
  · cases h
  · next ty hty =>
    obtain ⟨b, hb, rfl⟩ := exists_of_map_eq_ok h
    have houtputs := Behavior.outputCount_ofParams hb
    have hfits : Node.Fits { id := d.id, enabled := d.enabled, behavior := b, ports := .new ty } :=
      ⟨by simp [Ports.new], by simp [Ports.new, houtputs]⟩
    exact ⟨⟨hfits, ⟨_, hb⟩, rfl, rfl⟩, rfl⟩

/-- The type name of a declaration that builds a node resolves, and its parameters are accepted. -/
theorem NodeDecl.ofParams_of_build {d : NodeDecl} {n : Node} (h : d.build = .ok n) :
    NodeType.ofName? d.typeName = some n.ports.type ∧
      Behavior.ofParams n.ports.type ⟨d.id, d.params⟩ = .ok n.behavior := by
  unfold NodeDecl.build at h
  split at h
  · cases h
  · next ty hty =>
    obtain ⟨b, hb, rfl⟩ := exists_of_map_eq_ok h
    exact ⟨hty, hb⟩

/-- The node is enabled as it has been declared. -/
theorem NodeDecl.enabled_of_build {d : NodeDecl} {n : Node} (h : d.build = .ok n) :
    n.enabled = d.enabled := by
  unfold NodeDecl.build at h
  split at h
  · cases h
  · obtain ⟨b, -, rfl⟩ := exists_of_map_eq_ok h
    rfl

namespace Graph

/-- What each addition keeps is kept by all of them. -/
theorem addAll_induct {δ : Type} {add : Graph → δ → Except ConfigError Graph} {P : Graph → Prop}
    (hadd : ∀ g d g', add g d = .ok g' → P g → P g') (ds : List δ) {g : Graph} (h : P g) :
    P (addAll add g ds).1 := by
  induction ds generalizing g with
  | nil => exact h
  | cons d ds ih =>
    unfold addAll
    split
    · next g' hok => exact ih (hadd g d g' hok h)
    · exact ih h

variable {g g' : Graph}

/-! ### Nodes -/

/-- Adding a node to fresh nodes leaves them fresh. -/
theorem fresh_addNode {d : NodeDecl} (h : g.addNode d = .ok g') (hlinks : g.links = [])
    (hg : g.Fresh) : g'.links = [] ∧ g'.Fresh := by
  unfold addNode at h
  split at h
  · cases h
  · next hnone =>
    obtain ⟨n, hn, rfl⟩ := exists_of_map_eq_ok h
    obtain ⟨hfresh, hid⟩ := NodeDecl.fresh_of_build hn
    -- what held of all nodes holds of them and the new one
    have hpush : ∀ {P : Node → Prop}, (∀ (i : Nat) m, g.nodes[i]? = some m → P m) → P n →
        ∀ (i : Nat) m, (g.nodes.push n)[i]? = some m → P m := by
      intro P hP hPn i m hm
      rw [Array.getElem?_push] at hm
      split at hm
      · cases hm
        exact hPn
      · exact hP i m hm
    refine ⟨hlinks, ⟨?_, hpush (fun i m hm => hg.sound.fits i m hm) hfresh.fits,
      hpush (fun i m hm => hg.sound.uniqueKeys i m hm) ?_, ?_, ?_⟩, hpush hg.nodes hfresh⟩
    · rw [Array.toList_push, List.map_append, List.map_singleton, List.nodup_append]
      refine ⟨hg.sound.nodup_ids, List.nodup_singleton _, fun id hmem id' hid' => ?_⟩
      obtain rfl := List.mem_singleton.1 hid'
      obtain ⟨m, hm, rfl⟩ := List.mem_map.1 hmem
      have := Array.findIdx?_eq_none_iff.1 hnone m (Array.mem_toList_iff.1 hm)
      rw [hid]
      simpa using this
    · rw [hfresh.timers]
      exact List.nodup_nil
    · rw [hlinks]
      exact fun l hl => nomatch hl
    · rw [hlinks]
      exact fun l hl => nomatch hl

/-! ### Links -/

/-- An end that is found is a node of the graph with that id. -/
theorem exists_of_resolveNode {e : Endpoint} {i : Nat} {ty : NodeType}
    (h : g.resolveNode e = .ok (i, ty)) :
    ∃ n, g.nodes[i]? = some n ∧ n.id = e.node ∧ n.ports.type = ty := by
  unfold resolveNode at h
  split at h
  · next j n hindex hnode =>
    cases h
    rw [node?_eq, hindex, Option.bind_some] at hnode
    exact ⟨n, hnode, id_of_indexOf? hindex hnode, rfl⟩
  · cases h

/-- No node has the id. -/
theorem of_resolveNode_eq_error {e : Endpoint} {error : ConfigError}
    (h : g.resolveNode e = .error error) :
    g.indexOf? e.node = none ∧ error = .missingNode e.node := by
  cases hindex : g.indexOf? e.node with
  | some i =>
    obtain ⟨n, hn, -⟩ := exists_node_of_indexOf? hindex
    rw [resolveNode, node?_eq, hindex, Option.bind_some, hn] at h
    cases h
  | none =>
    rw [resolveNode, hindex] at h
    cases h
    exact ⟨rfl, rfl⟩

/-- Both ends of a link have been found. -/
theorem exists_of_resolveLink {d : LinkDecl} {l : Link} (h : g.resolveLink d = .ok l) :
    ∃ sourceType targetType, g.resolveNode d.source = .ok (l.source.node, sourceType) ∧
      g.resolveNode d.target = .ok (l.target.node, targetType) ∧
      sourceType.outputIndex? d.source.port = some l.source.port ∧
      targetType.inputIndex? d.target.port = some l.target.port := by
  unfold resolveLink at h
  cases hsource : g.resolveNode d.source with
  | error e => simp [hsource, bind, Except.bind] at h
  | ok s =>
    cases htarget : g.resolveNode d.target with
    | error e => simp [hsource, htarget, bind, Except.bind] at h
    | ok t =>
      simp only [hsource, htarget, bind, Except.bind] at h
      split at h
      · next hsourcePort htargetPort =>
        cases h
        exact ⟨s.2, t.2, rfl, rfl, hsourcePort, htargetPort⟩
      · cases h
      · cases h

/-- Adding a link leaves a graph fresh. -/
theorem fresh_addLink {d : LinkDecl} (h : g.addLink d = .ok g') (hg : g.Fresh) : g'.Fresh := by
  obtain ⟨l, hl, rfl⟩ := exists_of_map_eq_ok h
  obtain ⟨sourceType, targetType, hsource, htarget, hsourcePort, htargetPort⟩ :=
    exists_of_resolveLink hl
  obtain ⟨n, hn, -, hnty⟩ := exists_of_resolveNode hsource
  obtain ⟨m, hm, -, hmty⟩ := exists_of_resolveNode htarget
  -- a port that has been found by its name exists
  have hsourceLt := (List.findIdx?_eq_some_iff_getElem.1 hsourcePort).1
  have htargetLt := (List.findIdx?_eq_some_iff_getElem.1 htargetPort).1
  refine ⟨⟨hg.sound.nodup_ids, hg.sound.fits, hg.sound.uniqueKeys, ?_, ?_⟩, hg.nodes⟩
  · intro l' hl'
    rcases List.mem_append.1 hl' with hl' | hl'
    · exact hg.sound.source l' hl'
    · obtain rfl := List.mem_singleton.1 hl'
      refine ⟨n, hn, ?_⟩
      rw [(hg.nodes _ n hn).ports, hnty]
      simpa [Ports.new] using hsourceLt
  · intro l' hl'
    rcases List.mem_append.1 hl' with hl' | hl'
    · exact hg.sound.target l' hl'
    · obtain rfl := List.mem_singleton.1 hl'
      refine ⟨m, hm, ?_⟩
      rw [(hg.sound.fits _ m hm).inputs, hmty]
      exact htargetLt

theorem fresh_empty (id : String) : Fresh { id := id } where
  sound :=
    { nodup_ids := List.nodup_nil
      fits := fun _ _ hn => nomatch hn
      uniqueKeys := fun _ _ hn => nomatch hn
      source := fun _ hl => nomatch hl
      target := fun _ hl => nomatch hl }
  nodes := fun _ _ hn => nomatch hn

/-- A graph is fresh when its nodes have been added. -/
theorem fresh_addAll_addNode (id : String) (ds : List NodeDecl) :
    (addAll addNode { id := id } ds).1.links = [] ∧ (addAll addNode { id := id } ds).1.Fresh :=
  addAll_induct (P := fun g => g.links = [] ∧ g.Fresh)
    (fun _ _ _ hadd h => fresh_addNode hadd h.1 h.2) ds ⟨rfl, fresh_empty id⟩

/-- It is fresh when its links have been added, too. -/
theorem fresh_build (d : GraphDecl) : (build d).1.Fresh :=
  addAll_induct (fun _ _ _ hadd h => fresh_addLink hadd h) d.links
    (fresh_addAll_addNode d.id d.nodes).2

/-- A graph has the id of its declaration. -/
theorem id_build (d : GraphDecl) : (build d).1.id = d.id := by
  have hnodes : (addAll addNode { id := d.id } d.nodes).1.id = d.id := by
    refine addAll_induct (P := fun g => g.id = d.id) (fun g e g' hadd h => ?_) d.nodes rfl
    unfold addNode at hadd
    split at hadd
    · cases hadd
    · obtain ⟨n, -, rfl⟩ := exists_of_map_eq_ok hadd
      exact h
  refine addAll_induct (P := fun g => g.id = d.id) (fun g e g' hadd h => ?_) d.links hnodes
  obtain ⟨l, -, rfl⟩ := exists_of_map_eq_ok hadd
  exact h

theorem nodes_addAll_addLink (ds : List LinkDecl) :
    (addAll addLink g ds).1.nodes = g.nodes := by
  refine addAll_induct (P := fun g' => g'.nodes = g.nodes) (fun g d g' hadd h => ?_) ds rfl
  obtain ⟨l, -, rfl⟩ := exists_of_map_eq_ok hadd
  exact h

/-! ### Declarations -/

/-- Each node was there before or comes from one of the declarations. -/
theorem exists_decl_of_addAll {ds : List NodeDecl} {i : Nat} {n : Node}
    (hn : (addAll addNode g ds).1.nodes[i]? = some n) :
    g.nodes[i]? = some n ∨ ∃ d ∈ ds, d.build = .ok n := by
  induction ds generalizing g with
  | nil => exact .inl hn
  | cons d ds ih =>
    unfold addAll at hn
    cases hadd : g.addNode d with
    | error e =>
      rw [hadd] at hn
      exact (ih hn).imp_right fun ⟨d', hd', hbuild⟩ => ⟨d', List.mem_cons_of_mem d hd', hbuild⟩
    | ok g' =>
      rw [hadd] at hn
      rcases ih hn with hold | ⟨d', hd', hbuild⟩
      · -- the node was there before, or it is the one that has just been added
        unfold addNode at hadd
        split at hadd
        · cases hadd
        · obtain ⟨m, hm, rfl⟩ := exists_of_map_eq_ok hadd
          rw [Array.getElem?_push] at hold
          split at hold
          · cases hold
            exact .inr ⟨d, List.mem_cons_self, hm⟩
          · exact .inl hold
      · exact .inr ⟨d', List.mem_cons_of_mem d hd', hbuild⟩

theorem nodes_build (d : GraphDecl) :
    (build d).1.nodes = (addAll addNode { id := d.id } d.nodes).1.nodes :=
  nodes_addAll_addLink d.links

/-- Nodes are added first, and links are added to what comes of that. -/
theorem build_eq_of_addAll {d : GraphDecl} {g g' : Graph} {nodeErrors linkErrors : List ConfigError}
    (hnodes : addAll addNode { id := d.id } d.nodes = (g, nodeErrors))
    (hlinks : addAll addLink g d.links = (g', linkErrors)) :
    build d = (g', nodeErrors ++ linkErrors) := by
  unfold build
  rw [hnodes]
  dsimp only
  rw [hlinks]

/-- Every node of a graph that has been built was declared. -/
theorem exists_decl_of_build {d : GraphDecl} {i : Nat} {n : Node}
    (hn : (build d).1.nodes[i]? = some n) : ∃ nd ∈ d.nodes, nd.build = .ok n := by
  rw [nodes_build] at hn
  exact (exists_decl_of_addAll hn).resolve_left fun hnone => nomatch hnone

end Graph

/-! ### The graphs of a configuration -/

namespace Engine

/-- The graphs of a configuration are fresh, and none has an id that has been taken before. -/
theorem fresh_of_mem_buildGraphs {taken : List String} {ds : List GraphDecl} {g : Graph}
    (hg : g ∈ (buildGraphs taken ds).1) : g.Fresh ∧ g.id ∉ taken := by
  induction ds generalizing taken with
  | nil => cases hg
  | cons d ds ih =>
    unfold buildGraphs at hg
    split at hg
    · exact ih hg
    · split at hg
      · exact ih hg
      · next htaken =>
        rcases List.mem_cons.1 hg with rfl | hg
        · rw [Graph.id_build]
          exact ⟨Graph.fresh_build d, by simpa using htaken⟩
        · obtain ⟨hfresh, hid⟩ := ih hg
          exact ⟨hfresh, fun hmem => hid (List.mem_cons_of_mem _ hmem)⟩

/-- Every graph of a configuration was declared. -/
theorem exists_decl_of_mem_buildGraphs {taken : List String} {ds : List GraphDecl} {g : Graph}
    (hg : g ∈ (buildGraphs taken ds).1) : ∃ d ∈ ds, g = (Graph.build d).1 := by
  induction ds generalizing taken with
  | nil => cases hg
  | cons d ds ih =>
    have hlater : ∀ {taken}, g ∈ (buildGraphs taken ds).1 →
        ∃ d' ∈ d :: ds, g = (Graph.build d').1 := by
      intro taken hg
      obtain ⟨d', hd', heq⟩ := ih hg
      exact ⟨d', List.mem_cons_of_mem d hd', heq⟩
    unfold buildGraphs at hg
    split at hg
    · exact hlater hg
    · split at hg
      · exact hlater hg
      · rcases List.mem_cons.1 hg with rfl | hg
        · exact ⟨d, List.mem_cons_self, rfl⟩
        · exact hlater hg

/-- No two of them have the same id. -/
theorem nodup_ids_buildGraphs (taken : List String) (ds : List GraphDecl) :
    ((buildGraphs taken ds).1.map Graph.id).Nodup := by
  induction ds generalizing taken with
  | nil => exact List.nodup_nil
  | cons d ds ih =>
    unfold buildGraphs
    split
    · exact ih taken
    · split
      · exact ih taken
      · refine List.nodup_cons.2 ⟨fun hmem => ?_, ih (d.id :: taken)⟩
        obtain ⟨g, hg, hid⟩ := List.mem_map.1 hmem
        refine (fresh_of_mem_buildGraphs hg).2 ?_
        rw [hid.trans (Graph.id_build d)]
        exact List.mem_cons_self

/-- The graphs are told apart by their ids. -/
theorem eq_of_id_eq_buildGraphs {taken : List String} {ds : List GraphDecl} {i j : Nat}
    {g g' : Graph} (hg : (buildGraphs taken ds).1[i]? = some g)
    (hg' : (buildGraphs taken ds).1[j]? = some g') (hid : g.id = g'.id) : i = j := by
  refine (List.getElem?_inj ?_ (nodup_ids_buildGraphs taken ds)).1 ?_
  · simpa using (List.getElem?_eq_some_iff.1 hg).1
  · rw [List.getElem?_map, List.getElem?_map, hg, hg', Option.map_some, Option.map_some, hid]

end Engine

end SignalGraph
