import Mathlib.Data.Finset.Card
import Mathlib.Logic.Relation
import SignalGraph.Proofs.Graph.Evolution
import SignalGraph.Proofs.Node.Combinational

/-!
# What a combinational graph denotes

In a graph without cycles, made of gates, comparisons, limits, constants and bridges, the output of
a node is a function of the values of the outside signals. `Graph.denotation` evaluates it from the
sources: the drivers of a node first, then the node. The recursion is bounded by the number of
nodes, which is enough: `Graph.denotation_eq` is its equation without a bound.
-/

namespace SignalGraph

namespace Graph

/-! ### Denotation -/

/-- The output that feeds an input, if there is one. -/
def driver? (g : Graph) (p : PortRef) : Option PortRef :=
  (g.links.find? fun l => l.target = p).map Link.source

/-- The output of a node, given the last values of the signals and the outputs of the other nodes. A
disabled node gives `null`, and so does an input without a link. -/
def meaning (g : Graph) (last : String → Option Value) (output : Nat → Value) (i : Nat) : Value :=
  match g.nodes[i]? with
  | none => .null
  | some n =>
    if n.enabled then
      n.behavior.meaning last fun port =>
        match g.driver? ⟨i, port⟩ with
        | some source => output source.node
        | none => .null
    else .null

/-- The output of a node, found by recursion into its drivers up to a depth. -/
def denote (g : Graph) (last : String → Option Value) : Nat → Nat → Value
  | 0, _ => .null
  | depth + 1, i => g.meaning last (g.denote last depth) i

/-- The output of a node, found by recursion into its drivers. -/
def denotation (g : Graph) (last : String → Option Value) (i : Nat) : Value :=
  g.denote last g.nodes.size i

/-! ### Graphs without cycles -/

/-- A link leads from node `i` to node `j`. -/
def Feeds (g : Graph) (i j : Nat) : Prop :=
  ∃ l ∈ g.links, l.source.node = i ∧ l.target.node = j

/-- No chain of links leads from a node back to it. -/
def Acyclic (g : Graph) : Prop :=
  ∀ i, ¬ Relation.TransGen g.Feeds i i

variable {g : Graph} {i j : Nat} {last : String → Option Value}

/-- A graph whose links all lead to later nodes has no cycle. -/
theorem acyclic_of_lt (h : ∀ l ∈ g.links, l.source.node < l.target.node) : g.Acyclic := by
  have hlt : ∀ i j, Relation.TransGen g.Feeds i j → i < j := by
    intro i j hij
    induction hij with
    | single hfeeds =>
      obtain ⟨l, hl, rfl, rfl⟩ := hfeeds
      exact h l hl
    | tail _ hfeeds ih =>
      obtain ⟨l, hl, rfl, rfl⟩ := hfeeds
      exact ih.trans (h l hl)
  exact fun i hi => Nat.lt_irrefl i (hlt i i hi)

theorem mem_links_of_driver? {p source : PortRef} (h : g.driver? p = some source) :
    ⟨source, p⟩ ∈ g.links := by
  obtain ⟨l, hl, rfl⟩ := Option.map_eq_some_iff.1 h
  have htarget : l.target = p := by simpa using List.find?_some hl
  have hmem := List.mem_of_find?_eq_some hl
  rw [← htarget]
  exact hmem

theorem feeds_of_driver? {port : Nat} {source : PortRef} (h : g.driver? ⟨j, port⟩ = some source) :
    g.Feeds source.node j :=
  ⟨_, mem_links_of_driver? h, rfl, rfl⟩

theorem ne_of_driver?_eq_none {p : PortRef} (h : g.driver? p = none) :
    ∀ l ∈ g.links, l.target ≠ p := by
  intro l hl
  have hnone := List.find?_eq_none.1 (Option.map_eq_none_iff.1 h) l hl
  simpa using hnone

/-- The meaning of a node depends on the outputs of its drivers alone. -/
theorem meaning_congr {output output' : Nat → Value}
    (h : ∀ i, g.Feeds i j → output i = output' i) :
    g.meaning last output j = g.meaning last output' j := by
  have hinput : (fun port => match g.driver? ⟨j, port⟩ with
      | some source => output source.node
      | none => Value.null) = fun port => match g.driver? ⟨j, port⟩ with
      | some source => output' source.node
      | none => Value.null := by
    ext port : 1
    split
    · next source hsource => exact h _ (feeds_of_driver? hsource)
    · rfl
  unfold meaning
  rw [hinput]

/-- Nothing matters about the outside but the signals that the graph shows. -/
theorem denotation_congr {last' : String → Option Value}
    (h : ∀ j signal, g.signal? j = some signal → last signal = last' signal) (j : Nat) :
    g.denotation last j = g.denotation last' j := by
  unfold denotation
  generalize g.nodes.size = depth
  induction depth generalizing j with
  | zero => rfl
  | succ depth ih =>
    -- the outputs that a node reads are denoted at one depth less
    have houtput : g.denote last depth = g.denote last' depth := by
      ext i : 1
      exact ih i
    unfold denote meaning
    rw [houtput]
    cases hn : g.nodes[j]? with
    | none => rfl
    | some n =>
      dsimp only
      split
      · next henabled =>
        unfold Behavior.meaning
        cases hbridge : n.behavior.inputBridge? with
        | none => rfl
        | some b =>
          have hsignal : g.signal? j = some b.signal := by
            rw [signal?, hn, Option.bind_some, Node.signal?_eq_some henabled hbridge]
          dsimp only
          rw [h j b.signal hsignal]
      · rfl

open Classical in
/-- The nodes from which chains of links lead to node `i`. -/
noncomputable def ancestors (g : Graph) (i : Nat) : Finset Nat :=
  (Finset.range g.nodes.size).filter fun j => Relation.TransGen g.Feeds j i

theorem mem_ancestors : j ∈ g.ancestors i ↔ j < g.nodes.size ∧ Relation.TransGen g.Feeds j i := by
  simp [ancestors]

theorem Sound.lt_of_feeds (hs : g.Sound) (h : g.Feeds i j) : i < g.nodes.size := by
  obtain ⟨l, hl, rfl, -⟩ := h
  obtain ⟨n, hn, -⟩ := hs.source l hl
  exact lt_size_of_getElem? hn

namespace Acyclic

/-- A node has more ancestors than the nodes that feed it. -/
theorem card_ancestors_lt (ha : g.Acyclic) (hs : g.Sound) (h : g.Feeds i j) :
    (g.ancestors i).card < (g.ancestors j).card := by
  refine Finset.card_lt_card (Finset.ssubset_iff_of_subset ?_ |>.2 ⟨i, ?_, ?_⟩)
  · intro k hk
    rw [mem_ancestors] at hk ⊢
    exact ⟨hk.1, hk.2.tail h⟩
  · rw [mem_ancestors]
    exact ⟨hs.lt_of_feeds h, .single h⟩
  · rw [mem_ancestors]
    exact fun hi => ha i hi.2

/-- Induction from the sources along the links. -/
theorem induct (ha : g.Acyclic) (hs : g.Sound) {P : Nat → Prop}
    (h : ∀ j, (∀ i, g.Feeds i j → P i) → P j) (j : Nat) : P j := by
  -- a node that feeds `j` has fewer ancestors than `j`
  induction hcard : (g.ancestors j).card using Nat.strong_induction_on generalizing j with
  | h k ih =>
    refine h j fun i hi => ih (g.ancestors i).card ?_ i rfl
    rw [← hcard]
    exact ha.card_ancestors_lt hs hi

/-- Depths beyond the number of ancestors make no difference. -/
theorem denote_eq_denote (ha : g.Acyclic) (hs : g.Sound) (j : Nat) :
    ∀ d d', (g.ancestors j).card < d → (g.ancestors j).card < d' →
      g.denote last d j = g.denote last d' j := by
  refine ha.induct hs (P := fun j => ∀ d d', (g.ancestors j).card < d →
    (g.ancestors j).card < d' → g.denote last d j = g.denote last d' j) ?_ j
  intro j ih d d' hd hd'
  obtain ⟨d, rfl⟩ : ∃ k, d = k + 1 := ⟨d - 1, by omega⟩
  obtain ⟨d', rfl⟩ : ∃ k, d' = k + 1 := ⟨d' - 1, by omega⟩
  show g.meaning last (g.denote last d) j = g.meaning last (g.denote last d') j
  refine meaning_congr fun i hi => ?_
  have hlt := ha.card_ancestors_lt hs hi
  exact ih i hi d d' (by omega) (by omega)

end Acyclic

/-- The denotation of a node is its meaning, given the denotations of its drivers. -/
theorem denotation_eq (ha : g.Acyclic) (hs : g.Sound) (last : String → Option Value) (j : Nat) :
    g.denotation last j = g.meaning last (g.denotation last) j := by
  show g.denote last g.nodes.size j = g.denote last (g.nodes.size + 1) j
  by_cases hj : j < g.nodes.size
  · have hcard : (g.ancestors j).card < g.nodes.size := by
      -- in a graph without cycles, a node is not its own ancestor
      have hproper : g.ancestors j ⊂ Finset.range g.nodes.size := by
        refine Finset.ssubset_iff_of_subset ?_ |>.2 ⟨j, ?_, ?_⟩
        · intro i hi
          exact Finset.mem_range.2 (mem_ancestors.1 hi).1
        · exact Finset.mem_range.2 hj
        · rw [mem_ancestors]
          exact fun h => ha j h.2
      have hlt := Finset.card_lt_card hproper
      rwa [Finset.card_range] at hlt
    exact ha.denote_eq_denote hs j _ _ hcard (by omega)
  · -- there is no such node, and it denotes `null` at any depth
    have hnone : g.nodes[j]? = none := Array.getElem?_eq_none (by omega)
    have hnull : ∀ d, g.denote last d j = .null := by
      intro d
      cases d with
      | zero => rfl
      | succ d =>
        unfold denote meaning
        rw [hnone]
    rw [hnull, hnull]

end Graph

end SignalGraph
