import Mathlib.Data.List.Basic
import SignalGraph.Proofs.Graph.Built

/-!
# Graphs without one of their nodes

`Graph.erase` takes a node and all links that touch it out of a graph. The nodes behind it move up,
so node `i` of what is left is node `skip k i` of the graph. What can be read off a port or a node
that is left is the same (`getElem?_erase`, `targets_erase`, `outputAt_erase`), and a node is found
by its id if the node that is gone has another one (`indexOf?_erase`).

Taking the declaration of a node and of its links away takes the node out of the graph that is built
(`build_without`).
-/

namespace SignalGraph

/-! ### Numbers -/

/-- The number that element `i` of a list without element `k` has in the list. -/
def skip (k i : Nat) : Nat :=
  if i < k then i else i + 1

/-- The number that element `i` of a list has once element `k` is gone; none for that element. -/
def unskip? (k i : Nat) : Option Nat :=
  if i = k then none else some (if i < k then i else i - 1)

section Numbers

variable {α β : Type} {k i j : Nat}

theorem skip_ne (k i : Nat) : skip k i ≠ k := by
  unfold skip
  split <;> omega

/-- `unskip?` undoes `skip`. -/
theorem unskip?_eq_some_iff : unskip? k i = some j ↔ i = skip k j := by
  unfold unskip? skip
  split
  · split <;> simp <;> omega
  · rw [Option.some_inj]
    split <;> split <;> omega

/-- Only the place that is skipped has no counterpart. -/
@[simp] theorem unskip?_skip (k i : Nat) : unskip? k (skip k i) = some i :=
  unskip?_eq_some_iff.2 rfl

theorem unskip?_eq_none_iff : unskip? k i = none ↔ i = k := by
  unfold unskip?
  split <;> simp_all

theorem getElem?_eraseIdx_eq (l : List α) (k i : Nat) : (l.eraseIdx k)[i]? = l[skip k i]? := by
  rw [List.getElem?_eraseIdx, skip]
  split <;> rfl

/-- Replacing a member and erasing another one commute. -/
theorem eraseIdx_set_skip (l : List α) (k i : Nat) (a : α) :
    (l.set (skip k i) a).eraseIdx k = (l.eraseIdx k).set i a := by
  unfold skip
  split
  · next h => rw [List.eraseIdx_set_gt h]
  · next h => rw [List.eraseIdx_set_lt (by omega), Nat.add_sub_cancel]

/-- The members after the erased one move down by one place. -/
theorem zipIdx_eraseIdx (l : List α) (k : Nat) :
    l.zipIdx.eraseIdx k = (l.eraseIdx k).zipIdx.map (Prod.map id (skip k)) := by
  refine List.ext_getElem? fun i => ?_
  rw [getElem?_eraseIdx_eq, List.getElem?_zipIdx, List.getElem?_map, List.getElem?_zipIdx,
    getElem?_eraseIdx_eq, Option.map_map, Nat.zero_add, Nat.zero_add]
  rfl

/-- An element that yields nothing may be left out. -/
theorem flatMap_eraseIdx {f : α → List β} {l : List α} (h : ∀ a, l[k]? = some a → f a = []) :
    (l.eraseIdx k).flatMap f = l.flatMap f := by
  induction l generalizing k with
  | nil => rfl
  | cons a rest ih =>
    cases k with
    | zero => rw [List.eraseIdx_cons_zero, List.flatMap_cons, h a rfl, List.nil_append]
    | succ k => rw [List.eraseIdx_cons_succ, List.flatMap_cons, List.flatMap_cons, ih h]

/-- Where the erased member is filtered out anyway, erasing it makes no difference. -/
theorem filterMap_eraseIdx {f : α → Option β} {l : List α} (h : ∀ a, l[k]? = some a → f a = none) :
    (l.eraseIdx k).filterMap f = l.filterMap f := by
  rw [List.filterMap_eq_flatMap_toList, List.filterMap_eq_flatMap_toList]
  refine flatMap_eraseIdx fun a ha => ?_
  rw [h a ha, Option.toList_none]

/-- All places but the skipped one, moved together. -/
theorem filterMap_unskip?_range {n : Nat} (h : k < n) :
    (List.range n).filterMap (unskip? k) = List.range (n - 1) := by
  have herased : (List.range n).eraseIdx k = (List.range (n - 1)).map (skip k) := by
    refine List.ext_getElem? fun i => ?_
    rw [getElem?_eraseIdx_eq, List.getElem?_map]
    have hbound : skip k i < n ↔ i < n - 1 := by
      unfold skip
      split <;> omega
    by_cases hi : i < n - 1
    · rw [List.getElem?_range (hbound.2 hi), List.getElem?_range hi, Option.map_some]
    · rw [List.getElem?_eq_none (by simpa using mt hbound.1 hi),
        List.getElem?_eq_none (by simpa using hi), Option.map_none]
  rw [← filterMap_eraseIdx (k := k), herased, List.filterMap_map]
  · exact (List.filterMap_congr fun i _ => unskip?_skip k i).trans List.filterMap_some
  · intro i hi
    rw [List.getElem?_range h, Option.some_inj] at hi
    exact unskip?_eq_none_iff.2 hi.symm

/-- An element that is not looked for may be left out. -/
theorem findIdx?_eraseIdx {p : α → Bool} {l : List α} (h : ∀ a, l[k]? = some a → p a = false) :
    l.findIdx? p = ((l.eraseIdx k).findIdx? p).map (skip k) := by
  induction l generalizing k with
  | nil => rfl
  | cons a rest ih =>
    cases k with
    | zero =>
      rw [List.eraseIdx_cons_zero, List.findIdx?_cons, h a rfl, if_neg Bool.false_ne_true]
      rfl
    | succ k =>
      have hskip : (fun i => skip k i + 1) = fun i => skip (k + 1) (i + 1) := by
        funext i
        unfold skip
        split <;> split <;> omega
      rw [List.eraseIdx_cons_succ, List.findIdx?_cons, List.findIdx?_cons, ih h]
      split
      · rfl
      · rw [Option.map_map, Option.map_map]
        exact congrArg (Option.map · _) hskip

end Numbers

namespace PortRef

/-- The address that a port of the graph without node `k` has in the graph. -/
def raise (k : Nat) (p : PortRef) : PortRef :=
  { p with node := skip k p.node }

/-- The address of a port once node `k` is gone; none for the ports of that node. -/
def lower? (k : Nat) (p : PortRef) : Option PortRef :=
  (unskip? k p.node).map fun node => { p with node := node }

variable {k : Nat} {p q : PortRef}

/-- Lowering a port undoes raising it. -/
theorem lower?_eq_some_iff : p.lower? k = some q ↔ p = q.raise k := by
  obtain ⟨node, port⟩ := p
  obtain ⟨node', port'⟩ := q
  simp only [lower?, raise, Option.map_eq_some_iff, unskip?_eq_some_iff, PortRef.mk.injEq]
  constructor
  · rintro ⟨_, rfl, rfl, rfl⟩
    exact ⟨rfl, rfl⟩
  · rintro ⟨rfl, rfl⟩
    exact ⟨_, rfl, rfl, rfl⟩

/-- Only the ports of the erased node cannot be lowered. -/
@[simp] theorem lower?_raise (k : Nat) (p : PortRef) : (p.raise k).lower? k = some p :=
  lower?_eq_some_iff.2 rfl

theorem lower?_eq_none_iff : p.lower? k = none ↔ p.node = k := by
  rw [lower?, Option.map_eq_none_iff, unskip?_eq_none_iff]

end PortRef

/-- A link once node `k` is gone; none for the links that touch that node. -/
def Link.lower? (k : Nat) (l : Link) : Option Link :=
  (l.source.lower? k).bind fun source => (l.target.lower? k).map fun target => ⟨source, target⟩

/-- The link in the graph that a link of the graph without node `k` is. -/
def Link.raise (k : Nat) (l : Link) : Link :=
  ⟨l.source.raise k, l.target.raise k⟩

theorem Link.lower?_raise (k : Nat) (l : Link) : (l.raise k).lower? k = some l := by
  simp [lower?, raise]

/-- Links at the erased node cannot be lowered. -/
theorem Link.lower?_eq_none {k : Nat} {l : Link} (h : l.source.node = k ∨ l.target.node = k) :
    l.lower? k = none := by
  unfold lower?
  rcases h with hsource | htarget
  · rw [PortRef.lower?_eq_none_iff.2 hsource, Option.bind_none]
  · rw [PortRef.lower?_eq_none_iff.2 htarget]
    cases l.source.lower? k <;> rfl

namespace Graph

/-! ### Erasing a node -/

/-- The graph without node `k`. -/
def erase (k : Nat) (g : Graph) : Graph :=
  { g with
    nodes := (g.nodes.toList.eraseIdx k).toArray
    links := g.links.filterMap (Link.lower? k) }

variable {g : Graph} {k i : Nat} {n : Node}

theorem getElem?_erase (g : Graph) (k i : Nat) : (g.erase k).nodes[i]? = g.nodes[skip k i]? := by
  rw [erase, List.getElem?_toArray, getElem?_eraseIdx_eq, Array.getElem?_toList]

theorem size_erase (h : k < g.nodes.size) : (g.erase k).nodes.size = g.nodes.size - 1 := by
  rw [erase, List.size_toArray, List.length_eraseIdx_of_lt h, Array.length_toList]

/-- The links of the graph without the node are those that do not touch it. -/
theorem targets_erase (g : Graph) (k : Nat) (p : PortRef) :
    (g.erase k).targets p = (g.targets (p.raise k)).filterMap (PortRef.lower? k) := by
  rw [targets, targets, erase, List.filterMap_filterMap, List.filterMap_filterMap]
  refine List.filterMap_congr fun l _ => ?_
  rw [Link.lower?]
  by_cases hsource : l.source = p.raise k
  · rw [if_pos hsource, Option.bind_some, hsource, PortRef.lower?_raise, Option.bind_some]
    cases l.target.lower? k with
    | none => rfl
    | some target => exact if_pos rfl
  · rw [if_neg hsource]
    cases hlower : l.source.lower? k with
    | none => rfl
    | some source =>
      -- the source is another port
      have hne : source ≠ p := by
        rintro rfl
        exact hsource (PortRef.lower?_eq_some_iff.1 hlower)
      cases l.target.lower? k with
      | none => rfl
      | some target => exact if_neg hne

/-- The other nodes show what they showed. -/
theorem outputAt_erase (g : Graph) (k : Nat) (p : PortRef) :
    (g.erase k).outputAt p = g.outputAt (p.raise k) := by
  rw [outputAt, outputAt, getElem?_erase]
  rfl

/-- Replacing another node and erasing this one commute. -/
theorem erase_replace (g : Graph) (k i : Nat) (n : Node) :
    (g.replace (skip k i) n).erase k = (g.erase k).replace i n := by
  rw [erase, replace, Array.toList_setIfInBounds, eraseIdx_set_skip, ← List.setIfInBounds_toArray]
  rfl

/-- What becomes of node `k` does not matter. -/
theorem erase_replace_self (g : Graph) (k : Nat) (n : Node) :
    (g.replace k n).erase k = g.erase k := by
  rw [erase, replace, Array.toList_setIfInBounds, List.eraseIdx_set_eq]
  rfl

/-! ### Nodes by their ids -/

/-- Another id is found where it was, moved down behind the erased node. -/
theorem indexOf?_erase {id : String} (hn : g.nodes[k]? = some n) (hid : n.id ≠ id) :
    g.indexOf? id = ((g.erase k).indexOf? id).map (skip k) := by
  have hother : ∀ m, g.nodes.toList[k]? = some m → (m.id == id) = false := by
    intro m hm
    rw [Array.getElem?_toList, hn, Option.some_inj] at hm
    rw [← hm, beq_eq_false_iff_ne]
    exact hid
  have hfound := findIdx?_eraseIdx hother
  rwa [← List.findIdx?_toArray, ← List.findIdx?_toArray, Array.toArray_toList] at hfound

theorem node?_erase {id : String} (hn : g.nodes[k]? = some n) (hid : n.id ≠ id) :
    (g.erase k).node? id = g.node? id := by
  rw [node?_eq, node?_eq, indexOf?_erase hn hid, Option.bind_map]
  exact Option.bind_congr fun i _ => getElem?_erase g k i

/-- Without the node that has an id, no node has it. -/
theorem indexOf?_erase_self (hn : g.nodes[k]? = some n)
    (hids : (g.nodes.toList.map Node.id).Nodup) : (g.erase k).indexOf? n.id = none := by
  refine Array.findIdx?_eq_none_iff.2 fun m hm => ?_
  obtain ⟨i, hi⟩ := Array.getElem?_of_mem hm
  rw [getElem?_erase] at hi
  rw [beq_eq_false_iff_ne]
  exact fun hid => skip_ne k i (eq_of_id_eq hids hi hn hid)

/-- A disabled node is no bridge, so erasing it loses none. -/
theorem inputBridges_erase (hn : g.nodes[k]? = some n) (hdisabled : n.enabled = false) :
    g.inputBridges = (g.erase k).inputBridges.map fun bridge => (skip k bridge.1, bridge.2) := by
  rw [inputBridges, ← filterMap_eraseIdx (k := k), zipIdx_eraseIdx, List.filterMap_map,
    inputBridges, List.map_filterMap]
  · refine List.filterMap_congr fun entry _ => ?_
    show (if entry.1.enabled then _ else _) = Option.map _ (if entry.1.enabled then _ else _)
    split
    · rw [Option.map_map]
      rfl
    · rfl
  · intro entry hentry
    rw [List.getElem?_zipIdx, Array.getElem?_toList, hn] at hentry
    cases hentry
    exact if_neg (by rw [hdisabled]; exact Bool.false_ne_true)

end Graph

/-! ### Dormant nodes -/

/-- A node that is disabled and holds no timer. Nothing sets it going. -/
structure Node.Dormant (n : Node) : Prop where
  disabled : n.enabled = false
  timers : n.timers = []

/-- Dormant nodes stay dormant. -/
theorem Node.Dormant.step {n n' : Node} (h : n.Dormant) (hstep : n.Step n') : n'.Dormant := by
  cases hstep with
  | inject henabled => cases henabled.symm.trans h.disabled
  | work hwork =>
    cases hwork with
    | evaluate henabled | deliver henabled | fail henabled => cases henabled.symm.trans h.disabled
    | store => exact ⟨h.disabled, h.timers⟩
    | release hsub =>
      rw [h.timers] at hsub
      exact ⟨h.disabled, List.sublist_nil.1 hsub⟩

namespace Graph

/-- Node `k` is dormant, and no two nodes share an id. -/
structure Dormant (g : Graph) (k : Nat) : Prop where
  nodup_ids : (g.nodes.toList.map Node.id).Nodup
  exists_node : ∃ n, g.nodes[k]? = some n ∧ n.Dormant

theorem Dormant.along {g g' : Graph} {k : Nat} (h : g.Dormant k) (halong : g.Along Node.Step g') :
    g'.Dormant k := by
  obtain ⟨n, hn, hdormant⟩ := h.exists_node
  obtain ⟨n', hn', -⟩ := halong.exists_node hn
  refine ⟨halong.map_id ▸ h.nodup_ids, n', hn', ?_⟩
  refine halong.forall_node (fun hstep h => h.step hstep) (fun m hm => ?_) n' hn'
  cases hn.symm.trans hm
  exact hdormant

end Graph

/-! ### Declarations without a node -/

/-- Whether a link leads from or to the node with an id. -/
def LinkDecl.touches (id : String) (l : LinkDecl) : Bool :=
  l.source.node == id || l.target.node == id

/-- The declaration without the node that has an id, and without the links that touch it. -/
def GraphDecl.without (id : String) (d : GraphDecl) : GraphDecl :=
  { d with
    nodes := d.nodes.filter fun n => n.id != id
    links := d.links.filter fun l => !l.touches id }

namespace Graph

variable {g : Graph} {k : Nat} {n : Node}

/-! ### Links without a node -/

theorem resolveNode_erase {e : Endpoint} (hn : g.nodes[k]? = some n) (he : n.id ≠ e.node) :
    g.resolveNode e = ((g.erase k).resolveNode e).map (Prod.map (skip k) fun ty => ty) := by
  rw [resolveNode, resolveNode, indexOf?_erase hn he, node?_erase hn he]
  cases (g.erase k).indexOf? e.node with
  | none => rfl
  | some i => cases g.node? e.node <;> rfl

/-- A link that does not name the node is resolved alike, up to the places of the nodes. -/
theorem resolveLink_erase {l : LinkDecl} (hn : g.nodes[k]? = some n)
    (hl : l.touches n.id = false) :
    ((g.erase k).resolveLink l).toOption = (g.resolveLink l).toOption.bind (Link.lower? k) := by
  rw [LinkDecl.touches, Bool.or_eq_false_iff, beq_eq_false_iff_ne, beq_eq_false_iff_ne] at hl
  rw [resolveLink, resolveLink, resolveNode_erase hn hl.1.symm, resolveNode_erase hn hl.2.symm]
  cases (g.erase k).resolveNode l.source with
  | error e => rfl
  | ok source =>
    cases (g.erase k).resolveNode l.target with
    | error e => rfl
    | ok target =>
      obtain ⟨i, sourceType⟩ := source
      obtain ⟨j, targetType⟩ := target
      simp only [Except.map, bind, Except.bind, Prod.map]
      split
      · next sourcePort targetPort _ _ =>
        exact (Link.lower?_raise k ⟨⟨i, sourcePort⟩, ⟨j, targetPort⟩⟩).symm
      · rfl
      · rfl

/-- A link that touches a node ends at it. -/
theorem lower?_of_resolveLink {d : LinkDecl} {l : Link} (hn : g.nodes[k]? = some n)
    (hids : (g.nodes.toList.map Node.id).Nodup) (hd : d.touches n.id = true)
    (hl : g.resolveLink d = .ok l) : l.lower? k = none := by
  have hnumber {e : Endpoint} {i : Nat} {ty : NodeType} (he : e.node = n.id)
      (hresolve : g.resolveNode e = .ok (i, ty)) : i = k := by
    rw [resolveNode, he, indexOf?_id hids hn] at hresolve
    split at hresolve
    · next hi _ =>
      cases hresolve
      exact (Option.some.inj hi).symm
    · cases hresolve
  obtain ⟨sourceType, targetType, hsource, htarget, -, -⟩ := exists_of_resolveLink hl
  rw [LinkDecl.touches, Bool.or_eq_true, beq_iff_eq, beq_iff_eq] at hd
  exact Link.lower?_eq_none (hd.imp (hnumber · hsource) (hnumber · htarget))

/-- A link that leads from or to a node that is not there is left out. -/
theorem resolveLink_eq_none {id : String} {d : LinkDecl} (hnone : g.indexOf? id = none)
    (hd : d.touches id = true) : (g.resolveLink d).toOption = none := by
  have hmissing {e : Endpoint} {i : Nat} {ty : NodeType} (he : e.node = id) :
      g.resolveNode e ≠ .ok (i, ty) := by
    rw [resolveNode, he, hnone]
    intro h
    cases h
  cases hl : g.resolveLink d with
  | error e => rfl
  | ok l =>
    obtain ⟨sourceType, targetType, hsource, htarget, -, -⟩ := exists_of_resolveLink hl
    rw [LinkDecl.touches, Bool.or_eq_true, beq_iff_eq, beq_iff_eq] at hd
    exact (hd.elim (hmissing · hsource) (hmissing · htarget)).elim

/-! ### Building without a node -/

/-- Where ids are unique, nodes are refused by their parameters alone, so the graph takes all those
that can be built. -/
theorem addAll_addNode {ds : List NodeDecl} {g : Graph}
    (hids : (g.nodes.toList.map Node.id ++ ds.map NodeDecl.id).Nodup) :
    (addAll addNode g ds).1 =
      { g with nodes := (g.nodes.toList ++ ds.filterMap fun d => d.build.toOption).toArray } := by
  induction ds generalizing g with
  | nil => simp [addAll]
  | cons d ds ih =>
    -- the id is new, as all ids are different
    have hnew : g.indexOf? d.id = none := by
      refine Array.findIdx?_eq_none_iff.2 fun m hm => ?_
      rw [beq_eq_false_iff_ne]
      exact (List.nodup_append.1 hids).2.2 _ (List.mem_map_of_mem (Array.mem_toList_iff.2 hm)) _
        List.mem_cons_self
    have hadd : g.addNode d = d.build.map fun n => { g with nodes := g.nodes.push n } := by
      rw [addNode, hnew]
    rw [addAll, hadd]
    cases hbuild : d.build with
    | error e =>
      have hrest : (g.nodes.toList.map Node.id ++ ds.map NodeDecl.id).Nodup :=
        hids.sublist ((List.sublist_cons_self _ _).append_left _)
      rw [List.filterMap_cons_none (by rw [hbuild]; rfl)]
      exact ih hrest
    | ok n =>
      have hrest : ((g.nodes.push n).toList.map Node.id ++ ds.map NodeDecl.id).Nodup := by
        rw [Array.toList_push, List.map_append, List.append_assoc, List.map_singleton,
          (NodeDecl.fresh_of_build hbuild).2]
        exact hids
      rw [List.filterMap_cons_some (by rw [hbuild]; rfl)]
      refine (ih (g := { g with nodes := g.nodes.push n }) hrest).trans ?_
      rw [Array.toList_push, List.append_assoc]
      rfl

/-- Links are resolved among the nodes, whatever links there are already. -/
theorem addAll_addLink (ds : List LinkDecl) (g : Graph) :
    (addAll addLink g ds).1 =
      { g with links := g.links ++ ds.filterMap fun d => (g.resolveLink d).toOption } := by
  induction ds generalizing g with
  | nil => simp [addAll]
  | cons d ds ih =>
    rw [addAll, addLink]
    cases hresolve : g.resolveLink d with
    | error e =>
      rw [List.filterMap_cons_none (by rw [hresolve]; rfl)]
      exact ih g
    | ok l =>
      rw [List.filterMap_cons_some (by rw [hresolve]; rfl)]
      refine (ih { g with links := g.links ++ [l] }).trans ?_
      rw [List.append_assoc]
      rfl

/-- The nodes that a declaration describes, without links. -/
def scaffold (d : GraphDecl) : Graph :=
  { id := d.id, nodes := (d.nodes.filterMap fun n => n.build.toOption).toArray }

/-- Where ids are unique, a graph consists of the nodes that can be built and the links that can be
resolved among them. -/
theorem build_eq {d : GraphDecl} (hids : (d.nodes.map NodeDecl.id).Nodup) :
    (build d).1 =
      { scaffold d with
        links := d.links.filterMap fun l => ((scaffold d).resolveLink l).toOption } := by
  have hnodes : (addAll addNode { id := d.id } d.nodes).1 = scaffold d := addAll_addNode hids
  show (addAll addLink (addAll addNode { id := d.id } d.nodes).1 d.links).1 = _
  rw [hnodes, addAll_addLink]
  rfl

/-- The other nodes are declared before the node or after it. -/
theorem nodes_without {d : GraphDecl} {nd : NodeDecl} (hids : (d.nodes.map NodeDecl.id).Nodup)
    (hnd : nd ∈ d.nodes) : ∃ before after, d.nodes = before ++ nd :: after ∧
      (d.without nd.id).nodes = before ++ after ∧ ∀ other ∈ before ++ after, other.id ≠ nd.id := by
  obtain ⟨before, after, hnodes⟩ := List.append_of_mem hnd
  have hother : ∀ other ∈ before ++ after, other.id ≠ nd.id := by
    rw [hnodes, List.map_append, List.map_cons, List.nodup_middle, List.nodup_cons] at hids
    intro other hmem hid
    exact hids.1 (List.map_append ▸ hid ▸ List.mem_map_of_mem hmem)
  refine ⟨before, after, hnodes, ?_, hother⟩
  rw [GraphDecl.without, hnodes, List.filter_append, List.filter_cons_of_neg (by simp),
    ← List.filter_append]
  exact List.filter_eq_self.2 fun other hmem => bne_iff_ne.2 (hother other hmem)

section Without

variable {d : GraphDecl} {nd : NodeDecl} (hids : (d.nodes.map NodeDecl.id).Nodup)
  (hnd : nd ∈ d.nodes)

include hids hnd

/-- A node that has been left out is not missed. -/
theorem scaffold_without_of_error {e : ConfigError} (hbuild : nd.build = .error e) :
    scaffold (d.without nd.id) = scaffold d ∧ (scaffold d).indexOf? nd.id = none := by
  obtain ⟨before, after, hnodes, hwithout, hother⟩ := nodes_without hids hnd
  have hscaffold : scaffold (d.without nd.id) = scaffold d := by
    rw [scaffold, scaffold, hwithout, hnodes, List.filterMap_append, List.filterMap_append,
      List.filterMap_cons_none (by rw [hbuild]; rfl)]
    rfl
  refine ⟨hscaffold, Array.findIdx?_eq_none_iff.2 fun n hn => ?_⟩
  rw [← hscaffold, scaffold, List.mem_toArray, List.mem_filterMap, hwithout] at hn
  obtain ⟨other, hmem, hn⟩ := hn
  cases hother' : other.build with
  | error e =>
    rw [hother'] at hn
    cases hn
  | ok m =>
    rw [hother'] at hn
    cases hn
    rw [beq_eq_false_iff_ne, (NodeDecl.fresh_of_build hother').2]
    exact hother other hmem

/-- Without the declaration of a node that can be built, that node is missing. -/
theorem scaffold_without_of_ok {n : Node} (hbuild : nd.build = .ok n) :
    ∃ k, (scaffold d).nodes[k]? = some n ∧ scaffold (d.without nd.id) = (scaffold d).erase k := by
  obtain ⟨before, after, hnodes, hwithout, -⟩ := nodes_without hids hnd
  let built : List NodeDecl → List Node := List.filterMap fun d => d.build.toOption
  have hsplit : (scaffold d).nodes.toList = built before ++ n :: built after := by
    rw [scaffold, hnodes, List.filterMap_append, List.filterMap_cons_some (by rw [hbuild]; rfl)]
  refine ⟨(built before).length, ?_, ?_⟩
  · rw [← Array.getElem?_toList, hsplit, List.getElem?_append_right (Nat.le_refl _), Nat.sub_self]
    rfl
  · rw [erase, hsplit, List.eraseIdx_append_of_length_le (Nat.le_refl _), Nat.sub_self,
      List.eraseIdx_cons_zero, scaffold, hwithout, List.filterMap_append]
    rfl

/-- Without the declaration of a node and of the links that touch it, the same graph is built
without that node. If the node has been left out anyway, the same graph is built. -/
theorem build_without :
    (build (d.without nd.id)).1 = (build d).1 ∨
      ∃ k n, nd.build = .ok n ∧ (build d).1.nodes[k]? = some n ∧
        (build (d.without nd.id)).1 = (build d).1.erase k := by
  have hids' : ((d.without nd.id).nodes.map NodeDecl.id).Nodup :=
    hids.sublist (List.filter_sublist.map _)
  have hlinks : ∀ f : LinkDecl → Option Link, (d.without nd.id).links.filterMap f =
      d.links.filterMap fun l => if !l.touches nd.id then f l else none :=
    fun f => List.filterMap_filter
  rw [build_eq hids, build_eq hids', hlinks]
  cases hbuild : nd.build with
  | error e =>
    left
    obtain ⟨hscaffold, hnone⟩ := scaffold_without_of_error hids hnd hbuild
    -- links that name a node that has not been built are refused in any case
    have hunresolved : ∀ l ∈ d.links,
        (if !l.touches nd.id then ((scaffold d).resolveLink l).toOption else none) =
          ((scaffold d).resolveLink l).toOption := by
      intro l _
      cases htouches : l.touches nd.id with
      | false => rfl
      | true => rw [resolveLink_eq_none hnone htouches]; rfl
    rw [hscaffold, List.filterMap_congr hunresolved]
  | ok n =>
    right
    obtain ⟨k, hn, hscaffold⟩ := scaffold_without_of_ok hids hnd hbuild
    refine ⟨k, n, rfl, hn, ?_⟩
    have hnodup : ((scaffold d).nodes.toList.map Node.id).Nodup := by
      have hsound := (fresh_build d).sound.nodup_ids
      rwa [build_eq hids] at hsound
    have hid : n.id = nd.id := (NodeDecl.fresh_of_build hbuild).2
    -- the links that are left are resolved alike, and those that name the node are lost on both
    -- sides
    have hlowered : ∀ l ∈ d.links,
        (if !l.touches nd.id then (((scaffold d).erase k).resolveLink l).toOption else none) =
          ((scaffold d).resolveLink l).toOption.bind (Link.lower? k) := by
      intro l _
      rw [← hid]
      cases htouches : l.touches n.id with
      | false => exact resolveLink_erase hn htouches
      | true =>
        cases hresolve : (scaffold d).resolveLink l with
        | error e => rfl
        | ok link => exact (lower?_of_resolveLink hn hnodup htouches hresolve).symm
    rw [hscaffold, List.filterMap_congr hlowered, ← List.filterMap_filterMap]
    rfl

end Without

end Graph

end SignalGraph
