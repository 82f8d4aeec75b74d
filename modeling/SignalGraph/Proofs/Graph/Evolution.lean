import SignalGraph.Proofs.Node.Step

/-!
# Graphs whose nodes change

`Graph.Along R g g'` says that `g` becomes `g'` when its nodes, one at a time, do what `R` allows.
Whatever else a graph consists of stays as it is. So the plans of the nodes stay (`Along.map_plan`)
and a sound graph stays sound (`Along.sound`).
-/

namespace SignalGraph

/-- A search finds the only member with a property. -/
theorem findIdx?_eq_some_of_unique {α : Type} {xs : Array α} {p : α → Bool} {i : Nat} {a : α}
    (h : xs[i]? = some a) (hp : p a = true)
    (hunique : ∀ {j b}, xs[j]? = some b → p b = true → j = i) : xs.findIdx? p = some i := by
  obtain ⟨hi, rfl⟩ := Array.getElem?_eq_some_iff.1 h
  refine Array.findIdx?_eq_some_iff_getElem.2 ⟨hi, hp, fun j hj hpj => ?_⟩
  have hji := hunique (Array.getElem?_eq_getElem (Nat.lt_trans hj hi)) hpj
  omega

theorem getElem?_setIfInBounds_of_some {α : Type} {xs : Array α} {i : Nat} {a b : α}
    (h : xs[i]? = some a) : (xs.setIfInBounds i b)[i]? = some b :=
  Array.getElem?_setIfInBounds_self_of_lt (Array.getElem?_eq_some_iff.1 h).1

/-- What is found by its key has that key. -/
theorem eq_of_findIdx?_beq {α : Type} {xs : Array α} {f : α → String} {key : String} {i : Nat}
    {a : α} (h : (xs.findIdx? fun a => f a == key) = some i) (ha : xs[i]? = some a) :
    f a = key := by
  obtain ⟨hi, hkey, -⟩ := Array.findIdx?_eq_some_iff_getElem.1 h
  rwa [(Array.getElem?_eq_some_iff.1 ha).2, beq_iff_eq] at hkey

theorem exists_of_find?_beq {α : Type} {xs : Array α} {f : α → String} {key : String} {a : α}
    (h : (xs.find? fun a => f a == key) = some a) : f a = key ∧ ∃ i : Nat, xs[i]? = some a :=
  ⟨beq_iff_eq.1 (Array.find?_some h :), Array.getElem?_of_mem (Array.mem_of_find?_eq_some h)⟩

namespace Graph

/-! ### Replacing a node -/

/-- The graph with another node in place of node `i`. -/
def replace (g : Graph) (i : Nat) (n : Node) : Graph :=
  { g with nodes := g.nodes.setIfInBounds i n }

/-- The value of an input port, `null` if there is no such port. -/
def inputAt (g : Graph) (p : PortRef) : Value :=
  match g.nodes[p.node]? with
  | some n => n.ports.inputAt p.port
  | none => .null

variable {g : Graph} {i : Nat} {n m : Node}

@[simp] theorem size_replace : (g.replace i n).nodes.size = g.nodes.size :=
  Array.size_setIfInBounds

theorem lt_size_of_getElem? (h : g.nodes[i]? = some n) : i < g.nodes.size :=
  (Array.getElem?_eq_some_iff.1 h).1

theorem getElem?_replace_self (h : g.nodes[i]? = some m) : (g.replace i n).nodes[i]? = some n :=
  getElem?_setIfInBounds_of_some h

theorem getElem?_replace_ne {j : Nat} (h : i ≠ j) : (g.replace i n).nodes[j]? = g.nodes[j]? :=
  Array.getElem?_setIfInBounds_ne h

@[simp] theorem replace_replace : (g.replace i m).replace i n = g.replace i n := by
  simp [replace, Array.setIfInBounds_setIfInBounds]

theorem inputAt_eq {p : PortRef} (h : g.nodes[p.node]? = some n) :
    g.inputAt p = n.ports.inputAt p.port := by
  rw [inputAt, h]

theorem outputAt_eq {p : PortRef} (h : g.nodes[p.node]? = some n) :
    g.outputAt p = n.ports.outputAt p.port := by
  rw [outputAt, h]

theorem inputAt_replace_ne {p : PortRef} (h : i ≠ p.node) :
    (g.replace i n).inputAt p = g.inputAt p := by
  rw [inputAt, inputAt, getElem?_replace_ne h]

theorem outputAt_replace_ne {p : PortRef} (h : i ≠ p.node) :
    (g.replace i n).outputAt p = g.outputAt p := by
  rw [outputAt, outputAt, getElem?_replace_ne h]

/-- Replacing a node by one with the same inputs changes no input. -/
theorem inputAt_replace (hn : g.nodes[i]? = some n) (hm : m.ports.inputs = n.ports.inputs)
    (p : PortRef) : (g.replace i m).inputAt p = g.inputAt p := by
  by_cases hi : i = p.node
  · rw [hi] at hn ⊢
    rw [inputAt_eq (getElem?_replace_self hn), inputAt_eq hn, Ports.inputAt, Ports.inputAt, hm]
  · exact inputAt_replace_ne hi

/-- Replacing a node by one with the same outputs changes no output. -/
theorem outputAt_replace (hn : g.nodes[i]? = some n) (hm : m.ports.outputs = n.ports.outputs)
    (p : PortRef) : (g.replace i m).outputAt p = g.outputAt p := by
  by_cases hi : i = p.node
  · rw [hi] at hn ⊢
    rw [outputAt_eq (getElem?_replace_self hn), outputAt_eq hn, Ports.outputAt, Ports.outputAt, hm]
  · exact outputAt_replace_ne hi

/-- Only the first output of a node that shows a value changes. -/
theorem outputAt_showing {value : Value} {p : PortRef} (hn : g.nodes[i]? = some n)
    (hp : p ≠ ⟨i, 0⟩) : (g.replace i (n.showing value)).outputAt p = g.outputAt p := by
  by_cases hi : i = p.node
  · have hport : 0 ≠ p.port := by
      rintro hport
      exact hp (by cases p; simp_all)
    rw [hi] at hn ⊢
    rw [outputAt_eq (getElem?_replace_self hn), outputAt_eq hn, Node.showing, Ports.setOutputAt,
      Ports.outputAt, List.getD_eq_getElem?_getD, List.getElem?_set_ne hport,
      ← List.getD_eq_getElem?_getD]
    rfl
  · exact outputAt_replace_ne hi

/-! ### Evolution -/

/-- The graph `g` becomes `g'` when its nodes do what `R` allows. -/
structure Along (R : Node → Node → Prop) (g g' : Graph) : Prop where
  id_eq : g'.id = g.id
  links_eq : g'.links = g.links
  size_eq : g'.nodes.size = g.nodes.size
  exists_node : ∀ {i : Nat} {n : Node}, g.nodes[i]? = some n →
    ∃ n', g'.nodes[i]? = some n' ∧ Relation.ReflTransGen R n n'

namespace Along

variable {R S : Node → Node → Prop} {g g' g'' : Graph}

theorem refl (g : Graph) : Along R g g :=
  ⟨rfl, rfl, rfl, fun h => ⟨_, h, .refl⟩⟩

/-- Evolutions of a graph may follow one another if the steps of nodes do. -/
theorem trans (h : Along R g g') (h' : Along R g' g'') : Along R g g'' where
  id_eq := h'.id_eq.trans h.id_eq
  links_eq := h'.links_eq.trans h.links_eq
  size_eq := h'.size_eq.trans h.size_eq
  exists_node := by
    intro i n hn
    obtain ⟨n', hn', hsteps⟩ := h.exists_node hn
    obtain ⟨n'', hn'', hsteps'⟩ := h'.exists_node hn'
    exact ⟨n'', hn'', hsteps.trans hsteps'⟩

/-- A weaker relation between the nodes is kept as well. -/
theorem mono (hRS : ∀ n n', R n n' → S n n') (h : Along R g g') : Along S g g' where
  id_eq := h.id_eq
  links_eq := h.links_eq
  size_eq := h.size_eq
  exists_node := by
    intro i n hn
    obtain ⟨n', hn', hsteps⟩ := h.exists_node hn
    exact ⟨n', hn', Relation.ReflTransGen.mono hRS _ _ hsteps⟩

/-- A step of one node is an evolution of the graph. -/
theorem replace {i : Nat} {n n' : Node} (hn : g.nodes[i]? = some n) (hR : R n n') :
    Along R g (g.replace i n') where
  id_eq := rfl
  links_eq := rfl
  size_eq := size_replace
  exists_node := by
    intro j m hm
    by_cases hij : i = j
    · subst hij
      obtain rfl : n = m := Option.some.inj (hn.symm.trans hm)
      exact ⟨n', getElem?_replace_self hn, .single hR⟩
    · exact ⟨m, by rw [getElem?_replace_ne hij, hm], .refl⟩

/-- Every node of the later graph comes from a node of the earlier one. -/
theorem exists_origin (h : Along R g g') {i : Nat} {n' : Node} (hn' : g'.nodes[i]? = some n') :
    ∃ n, g.nodes[i]? = some n ∧ Relation.ReflTransGen R n n' := by
  have hi : i < g.nodes.size := h.size_eq ▸ lt_size_of_getElem? hn'
  obtain ⟨m, hm, hsteps⟩ := h.exists_node (Array.getElem?_eq_getElem hi)
  obtain rfl : m = n' := Option.some.inj (hm.symm.trans hn')
  exact ⟨_, Array.getElem?_eq_getElem hi, hsteps⟩

/-- What a node satisfies and `R` keeps is satisfied by the node later. -/
theorem forall_node {P : Node → Prop} (h : Along R g g') (hR : ∀ {n n'}, R n n' → P n → P n')
    {i : Nat} (hP : ∀ n, g.nodes[i]? = some n → P n) (n' : Node) (hn' : g'.nodes[i]? = some n') :
    P n' := by
  obtain ⟨n, hn, hsteps⟩ := h.exists_origin hn'
  clear hn'
  induction hsteps with
  | refl => exact hP n hn
  | tail _ hstep ih => exact hR hstep ih

/-- What every node satisfies, given its number, and `R` keeps is satisfied by every node later. -/
theorem forall_nodes {P : Nat → Node → Prop} (h : Along R g g')
    (hR : ∀ {i n n'}, R n n' → P i n → P i n') (hP : ∀ (i : Nat) n, g.nodes[i]? = some n → P i n)
    (i : Nat) (n' : Node) (hn' : g'.nodes[i]? = some n') : P i n' :=
  h.forall_node hR (hP i) n' hn'

/-- Work is one kind of step. -/
theorem step (h : Along Node.Work g g') : Along Node.Step g g' :=
  h.mono fun _ _ => .work

/-- A node at work keeps its plan. -/
theorem plan_eq (h : Along Node.Step g g') {i : Nat} {n n' : Node} (hn : g.nodes[i]? = some n)
    (hn' : g'.nodes[i]? = some n') : n'.plan = n.plan := by
  obtain ⟨m, hm, hsteps⟩ := h.exists_node hn
  obtain rfl : m = n' := Option.some.inj (hm.symm.trans hn')
  clear hm hn'
  induction hsteps with
  | refl => rfl
  | tail _ hstep ih => rw [hstep.plan_eq, ih]

theorem map_plan (h : Along Node.Step g g') : g'.nodes.map Node.plan = g.nodes.map Node.plan := by
  refine Array.ext_getElem? fun i => ?_
  rw [Array.getElem?_map, Array.getElem?_map]
  cases hn : g.nodes[i]? with
  | none =>
    rw [Array.getElem?_eq_none_iff, ← h.size_eq, ← Array.getElem?_eq_none_iff] at hn
    rw [hn]
  | some n =>
    obtain ⟨n', hn', -⟩ := h.exists_node hn
    rw [hn', Option.map_some, Option.map_some, h.plan_eq hn hn']

theorem map_id (h : Along Node.Step g g') :
    g'.nodes.toList.map Node.id = g.nodes.toList.map Node.id := by
  have hids : ∀ g : Graph, g.nodes.toList.map Node.id =
      (g.nodes.map Node.plan).toList.map Node.Plan.id := by
    intro g
    rw [Array.toList_map, List.map_map]
    rfl
  rw [hids, hids, h.map_plan]

end Along

/-! ### Sound graphs -/

def HasInput (g : Graph) (p : PortRef) : Prop :=
  ∃ n, g.nodes[p.node]? = some n ∧ p.port < n.ports.inputs.length

def HasOutput (g : Graph) (p : PortRef) : Prop :=
  ∃ n, g.nodes[p.node]? = some n ∧ p.port < n.ports.outputs.length

/-- What holds of every graph that has been built, and of every graph at work. -/
structure Sound (g : Graph) : Prop where
  nodup_ids : (g.nodes.toList.map Node.id).Nodup
  fits : ∀ (i : Nat) n, g.nodes[i]? = some n → n.Fits
  uniqueKeys : ∀ (i : Nat) n, g.nodes[i]? = some n → n.timers.UniqueKeys
  source : ∀ l ∈ g.links, g.HasOutput l.source
  target : ∀ l ∈ g.links, g.HasInput l.target

theorem node?_eq (g : Graph) (id : String) : g.node? id = (g.indexOf? id).bind (g.nodes[·]?) :=
  Array.find?_eq_bind_findIdx?_getElem?

theorem id_of_indexOf? {g : Graph} {id : String} {i : Nat} {n : Node} (h : g.indexOf? id = some i)
    (hn : g.nodes[i]? = some n) : n.id = id :=
  eq_of_findIdx?_beq h hn

/-- A node that is found has the id that was looked for. -/
theorem exists_node_of_indexOf? {g : Graph} {id : String} {i : Nat} (h : g.indexOf? id = some i) :
    ∃ n, g.nodes[i]? = some n ∧ n.id = id := by
  obtain ⟨hi, hid, -⟩ := Array.findIdx?_eq_some_iff_getElem.1 h
  exact ⟨_, Array.getElem?_eq_getElem hi, beq_iff_eq.1 hid⟩

/-- Nodes are told apart by their ids. -/
theorem eq_of_id_eq {g : Graph} (hids : (g.nodes.toList.map Node.id).Nodup) {i j : Nat} {n m : Node}
    (hn : g.nodes[i]? = some n) (hm : g.nodes[j]? = some m) (hid : n.id = m.id) : i = j := by
  have hplace : ∀ {k : Nat} {n : Node}, g.nodes[k]? = some n →
      (g.nodes.toList.map Node.id)[k]? = some n.id := by
    intro k n hn
    rw [List.getElem?_map, Array.getElem?_toList, hn, Option.map_some]
  -- ids that are equal stand at the same place of a list without duplicates
  refine (List.getElem?_inj ?_ hids).1 ?_
  · simpa using lt_size_of_getElem? hn
  · rw [hplace hn, hplace hm, hid]

/-- Where ids are unique, each node is found by its own. -/
theorem indexOf?_id {g : Graph} (hids : (g.nodes.toList.map Node.id).Nodup) {i : Nat} {n : Node}
    (hn : g.nodes[i]? = some n) : g.indexOf? n.id = some i :=
  findIdx?_eq_some_of_unique hn (beq_self_eq_true _) fun hm hid =>
    eq_of_id_eq hids hm hn (beq_iff_eq.1 hid)

theorem Sound.indexOf?_id {g : Graph} (hs : g.Sound) {i : Nat} {n : Node}
    (hn : g.nodes[i]? = some n) : g.indexOf? n.id = some i :=
  Graph.indexOf?_id hs.nodup_ids hn

namespace Along

variable {g g' : Graph}

theorem hasInput (h : Along Node.Step g g')
    (hfits : ∀ (i : Nat) n, g.nodes[i]? = some n → n.Fits) {p : PortRef} (hp : g.HasInput p) :
    g'.HasInput p := by
  obtain ⟨n, hn, hport⟩ := hp
  obtain ⟨n', hn', -⟩ := h.exists_node hn
  have htype : n'.ports.type = n.ports.type := congrArg Node.Plan.type (h.plan_eq hn hn')
  have hfits' := h.forall_nodes Node.Step.fits hfits _ n' hn'
  refine ⟨n', hn', ?_⟩
  rwa [hfits'.inputs, htype, ← (hfits _ n hn).inputs]

theorem hasOutput (h : Along Node.Step g g')
    (hfits : ∀ (i : Nat) n, g.nodes[i]? = some n → n.Fits) {p : PortRef} (hp : g.HasOutput p) :
    g'.HasOutput p := by
  obtain ⟨n, hn, hport⟩ := hp
  obtain ⟨n', hn', -⟩ := h.exists_node hn
  have hparameters : n'.behavior.parameters = n.behavior.parameters :=
    congrArg Node.Plan.parameters (h.plan_eq hn hn')
  have hfits' := h.forall_nodes Node.Step.fits hfits _ n' hn'
  refine ⟨n', hn', ?_⟩
  rwa [hfits'.outputs, ← Behavior.outputCount_parameters, hparameters,
    Behavior.outputCount_parameters, ← (hfits _ n hn).outputs]

/-- A sound graph stays sound at work. -/
theorem sound (h : Along Node.Step g g') (hs : g.Sound) : g'.Sound where
  nodup_ids := by
    rw [h.map_id]
    exact hs.nodup_ids
  fits := h.forall_nodes Node.Step.fits hs.fits
  uniqueKeys := h.forall_nodes Node.Step.uniqueKeys hs.uniqueKeys
  source := by
    rw [h.links_eq]
    exact fun l hl => h.hasOutput hs.fits (hs.source l hl)
  target := by
    rw [h.links_eq]
    exact fun l hl => h.hasInput hs.fits (hs.target l hl)

end Along

end Graph

end SignalGraph
